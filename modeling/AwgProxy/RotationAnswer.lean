import AwgProxy.Rotation

/-!
# What Confirms a Move

A move is confirmed by whatever the s2c thread forwards while it is pending. That is an
answer of the new port as long as nothing of the old one is under way when the socket moves:
on the socket, in the hand of the thread, or pending of a merged read.

* `confirmedByNewPort` — in such runs, a confirmed move was answered from the new port.
* `not_confirmedByNewPort_hand` — a batch taken from the old port, and confirmed by it.
-/

namespace AwgProxy

/-- The server sent `d` from the port of the latest move, after that move began. -/
def Rotation.FromNewPort (s : Rotation) (d : ServerPkt) : Prop :=
  d.port = s.rotTo ∧ d.sentAfter = s.moves

/-- When `rot_answered` confirms the pending move, the s2c thread has taken a datagram that
the server sent from the new port after the move began. -/
def ConfirmedByNewPort (s : Rotation) : Prop :=
  ∀ s', rotStep s .test = some s' → s.rotState = .pending → s'.rotState = .idle →
    s'.rotWon = true → ∃ d ∈ s.taken, s.FromNewPort d

/-- Everything forwardable the s2c thread has before it meets `P`. -/
structure Rotation.UnderWay (s : Rotation) (P : ServerPkt → Prop) : Prop where
  queued : ∀ fd, s.remoteFd = some fd → ∀ d ∈ s.queued fd, d.forwards = true → P d
  hand : ∀ ds, s.hand = some ds → ∀ d ∈ ds, d.forwards = true → P d
  pend : ∀ d ∈ s.pend, d.forwards = true → P d

/-- What is under way stands on the socket, in the hand of the thread and with the pending
segments. -/
theorem Rotation.UnderWay.congr {s s' : Rotation} {P : ServerPkt → Prop} (h : s.UnderWay P)
    (hqueued : s'.queued = s.queued) (hfd : s'.remoteFd = s.remoteFd) (hhand : s'.hand = s.hand)
    (hpend : s'.pend = s.pend) : s'.UnderWay P := by
  refine ⟨fun fd hfd' => ?_, fun ds hds => ?_, ?_⟩
  · rw [hqueued]
    exact h.queued fd (hfd.symm.trans hfd')
  · exact h.hand ds (hhand.symm.trans hds)
  · rw [hpend]
    exact h.pend

/-- When the socket moves, nothing forwardable is under way; and while the move is pending,
nothing forwardable arrives that was sent before it. -/
def AnswersAreNew (s : Rotation) : RotEvent → Prop
  | .move _ _ _ true _ => s.UnderWay fun _ => False
  | .arrive _ d => s.rotState = .pending → d.forwards = true → d.sentAfter = s.moves
  | _ => True

/-- While a move is pending, what is under way comes from the new port; and what is in the
hand of the thread has been taken. -/
structure AnswerInv (s : Rotation) : Prop extends RotInv s where
  underWay : s.rotState = .pending → s.UnderWay s.FromNewPort
  hand : ∀ ds, s.hand = some ds → ∀ d ∈ ds, d ∈ s.taken
  pend : ∀ d ∈ s.pend, d ∈ s.taken

/-- Every step that meets the condition keeps what is under way new. -/
theorem AnswerInv.step {s s' : Rotation} {e : RotEvent} (h : AnswerInv s)
    (hg : AnswersAreNew s e) (hs : RotStep s e s') : AnswerInv s' := by
  have hrot := h.toRotInv.step hs
  have hidle : s'.rotState = .idle → s'.rotState = .pending → s'.UnderWay s'.FromNewPort :=
    fun hi hp => absurd (hi.symm.trans hp) nofun
  cases hs with
  | flags => exact ⟨hrot, fun hp => (h.underWay hp).congr rfl rfl rfl rfl, h.hand, h.pend⟩
  | arrive fd d hfd hport hsent =>
      refine ⟨hrot, fun hp => ⟨fun fd' hfd' d' hd' hf => ?_, (h.underWay hp).hand,
        (h.underWay hp).pend⟩, h.hand, h.pend⟩
      by_cases hsame : fd' = fd
      · subst hsame
        dsimp only at hd'
        rw [Function.update_self] at hd'
        rcases List.mem_append.mp hd' with hd' | hd'
        · exact (h.underWay hp).queued fd' hfd' d' hd' hf
        · -- the socket is connected to the new port
          obtain rfl := List.mem_singleton.mp hd'
          have hnew := (h.movesEnd.pending hp).2
          exact ⟨(hport.trans (h.ok fd' hfd').1.symm).trans hnew, hg hp hf⟩
      · dsimp only at hd'
        rw [Function.update_of_ne hsame] at hd'
        exact (h.underWay hp).queued fd' hfd' d' hd' hf
  | read gro k fd hfd ds rest hds =>
      have htake : ∀ d ∈ ds, d ∈ (s.queued fd).take k := fun d hd => by
        rcases hds with hds | ⟨rfl, -⟩
        · exact hds ▸ List.mem_append_left _ hd
        · exact hd
      have hrest : ∀ d ∈ rest, d ∈ (s.queued fd).take k ∨ d ∈ s.pend := fun d hd => by
        rcases hds with hds | ⟨-, rfl⟩
        · exact Or.inl (hds ▸ List.mem_append_right _ hd)
        · exact Or.inr hd
      refine ⟨hrot, fun hp => ⟨fun fd' hfd' d hd hf => ?_, fun ds' hds' d hd hf => ?_,
        fun d hd hf => ?_⟩, fun ds' hds' d hd => ?_, fun d hd => ?_⟩
      · obtain rfl := Option.some.inj (hfd.symm.trans hfd')
        dsimp only at hd
        rw [Function.update_self] at hd
        exact (h.underWay hp).queued fd hfd d (List.mem_of_mem_drop hd) hf
      · obtain rfl := Option.some.inj hds'
        exact (h.underWay hp).queued fd hfd d (List.mem_of_mem_take (htake d hd)) hf
      · rcases hrest d hd with hd | hd
        · exact (h.underWay hp).queued fd hfd d (List.mem_of_mem_take hd) hf
        · exact (h.underWay hp).pend d hd hf
      · obtain rfl := Option.some.inj hds'
        exact List.mem_append_right _ (htake d hd)
      · rcases hrest d hd with hd | hd
        · exact List.mem_append_right _ hd
        · exact List.mem_append_left _ (h.pend d hd)
  | drain ds rest hds =>
      have hmem : ∀ d, d ∈ ds ∨ d ∈ rest → d ∈ s.pend := fun d hd =>
        hds ▸ List.mem_append.mpr hd
      refine ⟨hrot, fun hp => ⟨(h.underWay hp).queued, fun ds' hds' d hd hf => ?_,
        fun d hd hf => ?_⟩, fun ds' hds' d hd => ?_, fun d hd => ?_⟩
      · obtain rfl := Option.some.inj hds'
        exact (h.underWay hp).pend d (hmem d (Or.inl hd)) hf
      · exact (h.underWay hp).pend d (hmem d (Or.inr hd)) hf
      · obtain rfl := Option.some.inj hds'
        exact h.pend d (hmem d (Or.inl hd))
      · exact h.pend d (hmem d (Or.inr hd))
  | stays => exact ⟨hrot, fun hp => (h.underWay hp).congr rfl rfl rfl rfl, h.hand, h.pend⟩
  | moves =>
      -- nothing is under way when the socket moves
      exact ⟨hrot, fun _ => ⟨fun fd hfd d hd hf => (hg.queued fd hfd d hd hf).elim,
        fun ds hds d hd hf => (hg.hand ds hds d hd hf).elim,
        fun d hd hf => (hg.pend d hd hf).elim⟩, h.hand, h.pend⟩
  | tested =>
      exact ⟨hrot, fun hp => ⟨(h.underWay hp).queued, nofun, (h.underWay hp).pend⟩, nofun, h.pend⟩
  | confirmed => exact ⟨hrot, hidle rfl, nofun, h.pend⟩
  | lost => exact ⟨hrot, hidle rfl, h.hand, h.pend⟩
  | reconnected => exact ⟨hrot, hidle rfl, h.hand, h.pend⟩
  | kept => exact ⟨hrot, fun hp => (h.underWay hp).congr rfl rfl rfl rfl, h.hand, h.pend⟩
  | swapped useAlt fd2 hfd2 => exact ⟨hrot, hidle (h.probe fd2 hfd2).1, h.hand, h.pend⟩
  | rolledBack => exact ⟨hrot, hidle rfl, h.hand, h.pend⟩
  | released => exact ⟨hrot, fun hp => (h.underWay hp).congr rfl rfl rfl rfl, h.hand, h.pend⟩

/-- A confirmation in such a state is by the new port. -/
theorem AnswerInv.confirmed {s : Rotation} (h : AnswerInv s) : ConfirmedByNewPort s := by
  intro s' hs hpending hidle _
  cases rotStep_of_step h.toEndpointInv hs with
  | tested => exact absurd (hpending.symm.trans hidle) nofun
  | confirmed ds hhand hany _ =>
      obtain ⟨d, hd, hf⟩ := List.any_eq_true.mp hany
      exact ⟨d, h.hand ds hhand d hd, (h.underWay hpending).hand ds hhand d hd hf⟩
  | flags => exact absurd (hpending.symm.trans hidle) nofun
  | stays => exact absurd (hpending.symm.trans hidle) nofun

/-- **A port move is confirmed only by the new port**, in every state reached by a run in
which nothing forwardable of the old port is under way when the socket moves, and nothing
forwardable sent before the move arrives while it is pending. -/
theorem confirmedByNewPort {s t : Rotation} {es : List RotEvent} (h0 : s.Started)
    (hC : rotMachine.Meets AnswersAreNew s es) (hrun : rotMachine.run s es = some t) :
    ConfirmedByNewPort t := by
  have hinit : AnswerInv s := by
    refine ⟨h0.rotInv, fun hp => absurd (h0.rotState.symm.trans hp) nofun, ?_, ?_⟩
    · rw [h0.hand]
      exact nofun
    · rw [h0.pend]
      exact nofun
  have hstep : ∀ q e q', AnswerInv q → AnswersAreNew q e → rotMachine.step q e = some q' →
      AnswerInv q' := fun q e q' hq hg hs => hq.step hg (rotStep_of_step hq.toEndpointInv hs)
  exact (Machine.guarded_induction hstep hinit hC hrun).confirmed

/-- A move that the new port answers. -/
theorem confirmedByNewPort_answered : ∃ t, rotMachine.run dialled
    [.due, .check, .move false true [4501] true true, .arrive 0 ⟨4501, 1, true⟩, .read false 1] =
      some t ∧ ConfirmedByNewPort t := by
  have hC : rotMachine.Meets AnswersAreNew dialled
      [.due, .check, .move false true [4501] true true, .arrive 0 ⟨4501, 1, true⟩,
        .read false 1] := by
    refine .cons trivial rfl (.cons trivial rfl (.cons ?_ rfl (.cons ?_ rfl (.cons trivial rfl
      (Machine.meets_nil _ _)))))
    · exact ⟨fun fd _ d hd => absurd hd List.not_mem_nil, nofun, nofun⟩
    · exact fun _ _ => rfl
  exact ⟨_, rfl, confirmedByNewPort started_dialled hC rfl⟩

/-- A datagram of the old port is taken, the socket moves, and the batch is tested. -/
def staleEvents : List RotEvent :=
  [.due, .check, .arrive 0 ⟨4500, 0, true⟩, .read false 1, .move false true [4501] true true]

/-- The move is confirmed although the server has sent nothing from the new port. -/
theorem not_confirmedByNewPort_hand :
    dialled.Started ∧ ∃ t, rotMachine.run dialled staleEvents = some t ∧
      ¬ ConfirmedByNewPort t ∧ t.taken = [⟨4500, 0, true⟩] ∧ t.rotTo = 4501 := by
  refine ⟨started_dialled, _, rfl, fun hc => ?_, rfl, rfl⟩
  obtain ⟨d, hd, hport, -⟩ := hc _ rfl rfl rfl rfl
  obtain rfl := List.mem_singleton.mp hd
  exact absurd hport (by decide)

end AwgProxy
