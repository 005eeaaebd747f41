-- The ids of the calls. They are drawn from a counter of 32 bits, and a call is
-- stored under its id over whatever stands there. As long as no call is open
-- while the counter goes all the way round, two open calls never share an id,
-- and so no open call is ever displaced.
import Mathlib.Data.Fintype.Card
import RpcFramework.ChannelTable

namespace rpc

open net codec runs

variable {ι Msg : Type} [DecidableEq ι]

/-- The call is complete: `done_flag` was set, or the failure of its write was reported. -/
def Call.finished (k : Call Msg) : Bool := k.doneFlag || k.pc = .failed

/-- The call is open: it has drawn an id, and its `CallMethod` runs or it is not complete. -/
def Call.live (k : Call Msg) : Bool :=
  k.pc.hasId && !(k.finished && (k.pc = .returned || k.pc = .failed))

namespace Channel

variable {pb : Protobuf Msg} {args : ι → CallArgs Msg} {s s' : Channel ι Msg} {a : Act ι}

/-! ## The counter -/

/-- The counter has wrapped as often as it must: each id is the number of its draw. -/
structure Ids (s : Channel ι Msg) : Prop where
  next : s.nextRequestId = UInt32.ofNat (1 + s.drawn)
  own : ∀ c, (s.calls c).pc.hasId = true →
    (s.calls c).requestId = UInt32.ofNat (1 + (s.calls c).ticket) ∧ (s.calls c).ticket < s.drawn
  distinct : ∀ c d, (s.calls c).pc.hasId = true → (s.calls d).pc.hasId = true →
    (s.calls c).ticket = (s.calls d).ticket → c = d

omit [DecidableEq ι] in
/-- No action but a draw gives a call an id or changes one. -/
theorem CallStep.keeps_id {c : ι} {k k' : Call Msg} (h : CallStep pb (args c) c k a k')
    (ha : a ≠ .draw c) :
    k'.pc.hasId = k.pc.hasId ∧ k'.requestId = k.requestId ∧ k'.ticket = k.ticket := by
  cases h with
  | same => exact ⟨rfl, rfl, rfl⟩
  | enter hpc => simp [hpc, CallPc.hasId]
  | check hpc => simp [hpc, CallPc.hasId]
  | refuse hpc => simp [hpc, CallPc.hasId, Call.runDone]
  | draw id ticket hpc => exact absurd rfl ha
  | insert late hpc => simp [hpc, CallPc.hasId]
  | written n hpc =>
    refine ⟨?_, rfl, rfl⟩
    simp only [hpc]
    split <;> rfl
  | writeFailed count hpc => simp [hpc, CallPc.hasId]
  | failWrite hpc => simp [hpc, CallPc.hasId, Call.runDone]
  | wait hpc =>
    refine ⟨?_, rfl, rfl⟩
    simp only [hpc]
    split <;> rfl
  | wake hpc _ => simp [hpc, CallPc.hasId]
  | sweep r _ _ => exact ⟨rfl, rfl, rfl⟩
  | take r resp _ _ _ => exact ⟨rfl, rfl, rfl⟩
  | apply r resp _ => simp
  | flag r resp _ => exact ⟨rfl, rfl, rfl⟩
  | runDone r resp _ => exact ⟨rfl, rfl, rfl⟩

theorem ids_draw (h : Ids s) {c : ι} (hpc : (s.calls c).pc = .checked) :
    Ids (s.effect pb args (.draw c)) := by
  obtain ⟨h1, h2, h3⟩ := h
  have hself : (s.effect pb args (.draw c)).calls c =
      { s.calls c with pc := .drawn, requestId := s.nextRequestId, ticket := s.drawn } := by
    simp [effect, modify]
  have hother : ∀ d, d ≠ c → (s.effect pb args (.draw c)).calls d = s.calls d := fun d hd => by
    simp [effect, modify, hd]
  refine ⟨?_, ?_, ?_⟩
  · change s.nextRequestId + 1 = UInt32.ofNat (1 + (s.drawn + 1))
    rw [h1, ← Nat.add_assoc, UInt32.ofNat_add (1 + s.drawn)]
    rfl
  · intro d hd
    change _ ∧ _ < s.drawn + 1
    by_cases hdc : d = c
    · subst hdc
      rw [hself]
      exact ⟨h1, Nat.lt_succ_self _⟩
    · rw [hother d hdc] at hd ⊢
      exact ⟨(h2 d hd).1, Nat.lt_succ_of_lt (h2 d hd).2⟩
  · intro d e hd he hde
    by_cases hdc : d = c
    · by_cases hec : e = c
      · rw [hdc, hec]
      · subst hdc
        rw [hself, hother e hec] at hde
        rw [hother e hec] at he
        have := (h2 e he).2
        simp only at hde
        omega
    · by_cases hec : e = c
      · subst hec
        rw [hself, hother d hdc] at hde
        rw [hother d hdc] at hd
        have := (h2 d hd).2
        simp only at hde
        omega
      · rw [hother d hdc] at hd hde
        rw [hother e hec] at he hde
        exact h3 d e hd he hde

omit [DecidableEq ι] in
theorem ids_init (args : ι → CallArgs Msg) : Ids (init args) where
  next := rfl
  own := by simp [init, CallPc.hasId]
  distinct := by simp [init, CallPc.hasId]

theorem ids_reach (h : (machine pb args).Reach s) : Ids s := by
  refine h.invariant (ids_init args) ?_
  intro s a s' hr hi hs
  have hcall := calls_step hr hs
  obtain ⟨he, rfl⟩ := step_iff.mp hs
  by_cases ha : ∃ c, a = .draw c
  · obtain ⟨c, rfl⟩ := ha
    exact ids_draw hi (by simpa [enabled] using he)
  · have hne : ∀ c, a ≠ .draw c := fun c hc => ha ⟨c, hc⟩
    obtain ⟨hnext, hdrawn⟩ := (frame_effect pb args s a).counter hne
    obtain ⟨h1, h2, h3⟩ := hi
    refine ⟨by rw [hdrawn, hnext]; exact h1, ?_, ?_⟩
    · intro c hc
      obtain ⟨k1, k2, k3⟩ := CallStep.keeps_id (hcall c) (hne c)
      rw [k1] at hc
      rw [k2, k3, hdrawn]
      exact h2 c hc
    · intro c d hc hd hcd
      obtain ⟨k1, -, k3⟩ := CallStep.keeps_id (hcall c) (hne c)
      obtain ⟨l1, -, l3⟩ := CallStep.keeps_id (hcall d) (hne d)
      rw [k1] at hc
      rw [l1] at hd
      rw [k3, l3] at hcd
      exact h3 c d hc hd hcd

/-- Each draw was made by a call. -/
theorem drawn_by (h : (machine pb args).Reach s) {t : Nat} (ht : t < s.drawn) :
    ∃ c, (s.calls c).pc.hasId = true ∧ (s.calls c).ticket = t := by
  revert t
  refine h.invariant (I := fun s => ∀ {t}, t < s.drawn →
    ∃ c, (s.calls c).pc.hasId = true ∧ (s.calls c).ticket = t) ?_ ?_
  · intro t ht
    simp [machine, init] at ht
  · intro s a s' hr hi hs t ht
    have hcall := calls_step hr hs
    obtain ⟨he, rfl⟩ := step_iff.mp hs
    by_cases ha : ∃ c, a = .draw c
    · obtain ⟨c, rfl⟩ := ha
      have hpc : (s.calls c).pc = .checked := by simpa [enabled] using he
      rcases Nat.lt_succ_iff_lt_or_eq.mp ht with hlt | rfl
      · obtain ⟨d, hd, hdt⟩ := hi hlt
        have hdc : d ≠ c := by
          rintro rfl
          simp [hpc, CallPc.hasId] at hd
        exact ⟨d, by simpa [effect, modify, hdc] using hd, by simpa [effect, modify, hdc] using hdt⟩
      · exact ⟨c, by simp [effect, modify, CallPc.hasId], by simp [effect, modify]⟩
    · have hne : ∀ c, a ≠ .draw c := fun c hc => ha ⟨c, hc⟩
      rw [((frame_effect pb args s a).counter hne).2] at ht
      obtain ⟨c, hc, hct⟩ := hi ht
      obtain ⟨k1, -, k3⟩ := CallStep.keeps_id (hcall c) (hne c)
      exact ⟨c, by rw [k1]; exact hc, by rw [k3]; exact hct⟩

/-- No more ids are drawn than there are calls. -/
theorem drawn_le_card [Fintype ι] (h : (machine pb args).Reach s) :
    s.drawn ≤ Fintype.card ι := by
  have hby : ∀ t : Fin s.drawn, ∃ c, (s.calls c).pc.hasId = true ∧ (s.calls c).ticket = t :=
    fun t => drawn_by h t.isLt
  choose f _ hf using hby
  have hinj : Function.Injective f := by
    intro t u htu
    have ht := hf t
    rw [htu, hf u] at ht
    exact Fin.ext ht.symm
  simpa using Fintype.card_le_of_injective f hinj

/-- Fewer than 2^32 calls never share an id. -/
theorem ids_differ [Fintype ι] (hfew : Fintype.card ι < 2 ^ 32) (h : (machine pb args).Reach s)
    {c d : ι} (hc : (s.calls c).pc.hasId = true) (hd : (s.calls d).pc.hasId = true)
    (hid : (s.calls c).requestId = (s.calls d).requestId) : c = d := by
  have hids := ids_reach h
  have hle := drawn_le_card h
  obtain ⟨ic, lc⟩ := hids.own c hc
  obtain ⟨id, ld⟩ := hids.own d hd
  apply hids.distinct c d hc hd
  rw [ic, id] at hid
  have hmod := congrArg UInt32.toNat hid
  simp only [UInt32.toNat_ofNat'] at hmod
  omega

/-! ## The window of open calls -/

/-- When an id is drawn, every open call has drawn its own fewer than 2^32 draws ago. -/
def InWindow (s : Channel ι Msg) : Act ι → Prop
  | .draw _ => ∀ d, (s.calls d).live = true → s.drawn < (s.calls d).ticket + 2 ^ 32
  | _ => True

instance [Fintype ι] (s : Channel ι Msg) (a : Act ι) : Decidable (InWindow s a) :=
  match a with
  | .draw _ =>
    inferInstanceAs (Decidable (∀ d, (s.calls d).live = true →
      s.drawn < (s.calls d).ticket + 2 ^ 32))
  | .enter _ | .check _ | .insert _ | .write _ _ | .failWrite _ | .wait _ | .wake _ | .loopHead _
  | .readv _ _ | .sweep _ | .parse _ | .take _ | .apply _ | .flag _ | .runDone _ | .socket _
  | .connect _ | .disconnect | .close => isTrue trivial

omit [DecidableEq ι] in
/-- An open call was open before, or has just drawn its id. -/
theorem CallStep.live_before {c : ι} {k k' : Call Msg} (h : CallStep pb (args c) c k a k')
    (ha : a ≠ .draw c) (hk : k'.live = true) : k.live = true := by
  unfold Call.live Call.finished at *
  cases h with
  | same => exact hk
  | draw id ticket hpc => exact absurd rfl ha
  | enter hpc => simp [CallPc.hasId] at hk
  | check hpc => simp [CallPc.hasId] at hk
  | refuse hpc => simp [CallPc.hasId, Call.runDone] at hk
  | insert late hpc => simp [hpc, CallPc.hasId]
  | written n hpc => simp [hpc, CallPc.hasId]
  | writeFailed count hpc => simp [hpc, CallPc.hasId]
  | failWrite hpc => simp [hpc, CallPc.hasId]
  | wait hpc => simp [hpc, CallPc.hasId]
  | wake hpc _ => simp [hpc, CallPc.hasId]
  | sweep r _ _ =>
    change (k.pc.hasId && !((true || decide (k.pc = .failed)) &&
      (decide (k.pc = .returned) || decide (k.pc = .failed)))) = true at hk
    simp at hk
    simp [hk]
  | take r resp _ _ _ => exact hk
  | apply r resp _ =>
    simpa using hk
  | flag r resp _ =>
    simp at hk
    simp [hk]
  | runDone r resp _ => exact hk

theorem window_reach (h : (machine pb args).ReachUnder InWindow s) (d : ι)
    (hd : (s.calls d).live = true) : s.drawn ≤ (s.calls d).ticket + 2 ^ 32 := by
  revert d
  refine h.invariant (I := fun s => ∀ d, (s.calls d).live = true →
    s.drawn ≤ (s.calls d).ticket + 2 ^ 32) ?_ ?_
  · intro d hd
    simp [machine, init, Call.live, CallPc.hasId] at hd
  · intro s a s' hr hi ha hs d hd
    have hcall := calls_step hr.reach hs d
    obtain ⟨-, rfl⟩ := step_iff.mp hs
    by_cases hdraw : ∃ c, a = .draw c
    · obtain ⟨c, rfl⟩ := hdraw
      change s.drawn + 1 ≤ _
      by_cases hdc : d = c
      · subst hdc
        simp [effect, modify]
      · have hsame : (s.effect pb args (.draw c)).calls d = s.calls d := by
          simp [effect, modify, hdc]
        rw [hsame] at hd ⊢
        exact ha d hd
    · have hne : ∀ c, a ≠ .draw c := fun c hc => hdraw ⟨c, hc⟩
      rw [((frame_effect pb args s a).counter hne).2, (CallStep.keeps_id hcall (hne d)).2.2]
      exact hi d (CallStep.live_before hcall (hne d) hd)

/-- Two open calls never share an id. -/
theorem live_ids_differ (h : (machine pb args).ReachUnder InWindow s) {c d : ι}
    (hc : (s.calls c).live = true) (hd : (s.calls d).live = true)
    (hid : (s.calls c).requestId = (s.calls d).requestId) : c = d := by
  have hcid : (s.calls c).pc.hasId = true := by
    simp only [Call.live, Bool.and_eq_true] at hc
    exact hc.1
  have hdid : (s.calls d).pc.hasId = true := by
    simp only [Call.live, Bool.and_eq_true] at hd
    exact hd.1
  have hids := ids_reach h.reach
  obtain ⟨ic, lc⟩ := hids.own c hcid
  obtain ⟨id, ld⟩ := hids.own d hdid
  have wc := window_reach h c hc
  have wd := window_reach h d hd
  apply hids.distinct c d hcid hdid
  rw [ic, id] at hid
  have hmod := congrArg UInt32.toNat hid
  simp only [UInt32.toNat_ofNat'] at hmod
  omega

/-! ## The law -/

/-- `on_message` has taken the call, and has not yet set its `done_flag`. -/
def Stage.inHand : Stage → Bool
  | .taken _ | .applied _ => true
  | _ => false

/-- Nothing stands in the place of an open call, and a stored call that is not complete is in
the table or in the hand of a reader. -/
structure Kept (s : Channel ι Msg) : Prop where
  place : ∀ d, (s.calls d).live = true → (s.calls d).pc.stored = true →
    ∀ c, s.pendingCalls (s.calls d).requestId = some c → c = d
  kept : ∀ d, (s.calls d).pc.stored = true → (s.calls d).finished = true ∨
    s.pendingCalls (s.calls d).requestId = some d ∨ Stage.inHand (s.calls d).stage = true

omit [DecidableEq ι] in
/-- A stored call that is not open is complete. -/
theorem finished_of_not_live {k : Call Msg} (hst : k.pc.stored = true) (hl : k.live = false) :
    k.finished = true := by
  have hid : k.pc.hasId = true := by
    cases hpc : k.pc <;> simp_all [CallPc.stored, CallPc.hasId]
  simp only [Call.live, hid, Bool.true_and, Bool.not_eq_false', Bool.and_eq_true] at hl
  exact hl.1

omit [DecidableEq ι] in
/-- A call that runs is open. -/
theorem live_of_running {k : Call Msg} (hid : k.pc.hasId = true) (h1 : k.pc ≠ .returned)
    (h2 : k.pc ≠ .failed) : k.live = true := by
  simp [Call.live, hid, h1, h2]

omit [DecidableEq ι] in
/-- A call that is complete stays complete, and a call leaves the hand of a reader complete. -/
theorem CallStep.finished_later {c : ι} {k k' : Call Msg} (h : CallStep pb (args c) c k a k') :
    (k.finished = true → k'.finished = true) ∧ (Stage.inHand k.stage = true →
      k'.finished = true ∨ Stage.inHand k'.stage = true) := by
  unfold Call.finished
  cases h with
  | same => exact ⟨id, Or.inr⟩
  | enter hpc => exact ⟨fun hf => by simp_all, Or.inr⟩
  | check hpc => exact ⟨fun hf => by simp_all, Or.inr⟩
  | refuse hpc => exact ⟨fun hf => by simp_all [Call.runDone], Or.inr⟩
  | draw id ticket hpc => exact ⟨fun hf => by simp_all, Or.inr⟩
  | insert late hpc => exact ⟨fun hf => by simp_all, Or.inr⟩
  | written n hpc => exact ⟨fun hf => by simp_all, Or.inr⟩
  | writeFailed count hpc => exact ⟨fun hf => by simp_all, Or.inr⟩
  | failWrite hpc => exact ⟨fun _ => by simp [Call.runDone], Or.inr⟩
  | wait hpc => exact ⟨fun hf => by simp_all, Or.inr⟩
  | wake hpc hflag => exact ⟨fun _ => by simp [hflag], Or.inr⟩
  | sweep r _ _ => exact ⟨fun _ => rfl, fun _ => Or.inl rfl⟩
  | take r resp _ hun _ => exact ⟨id, fun _ => Or.inr rfl⟩
  | apply r resp hst =>
    refine ⟨?_, fun _ => Or.inr rfl⟩
    simp
  | flag r resp hst => simp
  | runDone r resp hst => exact ⟨id, fun hh => by simp [hst, Stage.inHand] at hh⟩

omit [DecidableEq ι] in
/-- A call becomes stored by its insertion only. -/
theorem CallStep.stored_before {c : ι} {k k' : Call Msg} (h : CallStep pb (args c) c k a k')
    (hk : k'.pc.stored = true) : k.pc.stored = true ∨ a = .insert c := by
  cases h with
  | same => exact Or.inl hk
  | insert late hpc => exact Or.inr rfl
  | written n hpc => simp [hpc, CallPc.stored]
  | writeFailed count hpc => simp [hpc, CallPc.stored]
  | wait hpc => simp [hpc, CallPc.stored]
  | wake hpc _ => simp [hpc, CallPc.stored]
  | sweep r _ _ => exact Or.inl hk
  | take r resp _ _ _ => exact Or.inl hk
  | apply r resp _ =>
    exact Or.inl (by simpa using hk)
  | flag r resp _ => exact Or.inl hk
  | runDone r resp _ => exact Or.inl hk
  | _ => simp [CallPc.stored, Call.runDone] at hk

/-- What stands under the id of an open call that is not in the table is complete. -/
theorem finished_under_live (h : (machine pb args).ReachUnder InWindow s) {c d : ι}
    (hc : (s.calls c).live = true) (hd : s.pendingCalls (s.calls c).requestId = some d)
    (hne : d ≠ c) : (s.calls d).finished = true := by
  obtain ⟨hid, hst, -⟩ := (good_reach h.reach).table _ _ hd
  cases hl : (s.calls d).live with
  | true => exact absurd (live_ids_differ h hl hc hid) hne
  | false => exact finished_of_not_live hst hl

theorem kept_step (hr : (machine pb args).ReachUnder InWindow s) (hk : Kept s)
    (hs : (machine pb args).step s a = some s') : Kept s' := by
  have hcall := calls_step hr.reach hs
  obtain ⟨he, rfl⟩ := step_iff.mp hs
  have htable := tableStep_effect he
  generalize s.effect pb args a = s' at htable hcall hs
  obtain ⟨hplace, hkept⟩ := hk
  have hnodraw : ∀ d, (s'.calls d).pc.stored = true → a ≠ .draw d := by
    rintro d hd rfl
    have hpc : (s.calls d).pc = .checked := by simpa [enabled] using he
    rcases CallStep.stored_before (hcall d) hd with h | h
    · simp [hpc, CallPc.stored] at h
    · cases h
  have hid : ∀ d, (s'.calls d).pc.stored = true →
      (s'.calls d).requestId = (s.calls d).requestId := fun d hd =>
    (CallStep.keeps_id (hcall d) (hnodraw d hd)).2.1
  cases htable with
  | same hins hfail hpend =>
    have hstored : ∀ d, (s'.calls d).pc.stored = true → (s.calls d).pc.stored = true :=
      fun d hd => (CallStep.stored_before (hcall d) hd).resolve_right (hins d)
    refine ⟨?_, ?_⟩
    · intro d hl hd c hc
      rw [hid d hd, hpend] at hc
      exact hplace d (CallStep.live_before (hcall d) (hnodraw d hd) hl) (hstored d hd) c hc
    · intro d hd
      obtain ⟨hfin, hhand⟩ := CallStep.finished_later (hcall d)
      rw [hid d hd, hpend]
      rcases hkept d (hstored d hd) with h | h | h
      · exact Or.inl (hfin h)
      · exact Or.inr (Or.inl h)
      · rcases hhand h with h' | h'
        · exact Or.inl h'
        · exact Or.inr (Or.inr h')
  | @insert e _ hpc hpend hother =>
    have hlive : (s.calls e).live = true := live_of_running (by simp [hpc, CallPc.hasId])
      (by simp [hpc]) (by simp [hpc])
    refine ⟨?_, ?_⟩
    · intro d hl hd c hc
      rw [hid d hd, hpend, Function.update_apply] at hc
      by_cases hde : d = e
      · subst hde
        simp only [if_true, Option.some.injEq] at hc
        exact hc.symm
      · rw [hother d hde] at hl hd
        split at hc
        · rename_i hsame
          exact absurd (live_ids_differ hr hl hlive hsame) hde
        · exact hplace d hl hd c hc
    · intro d hd
      rw [hid d hd, hpend, Function.update_apply]
      by_cases hde : d = e
      · subst hde
        simp
      · rw [hother d hde] at hd ⊢
        rcases hkept d hd with h | h | h
        · exact Or.inl h
        · split
          · rename_i hsame
            rw [hsame] at h
            exact Or.inl (finished_under_live hr hlive h hde)
          · exact Or.inr (Or.inl h)
        · exact Or.inr (Or.inr h)
  | @failWrite e _ hpc hpend hother hfailed =>
    have hlive : (s.calls e).live = true := live_of_running (by simp [hpc, CallPc.hasId])
      (by simp [hpc]) (by simp [hpc])
    have hne : ∀ d, (s'.calls d).pc.stored = true → d ≠ e := by
      rintro d hd rfl
      simp [hfailed, CallPc.stored] at hd
    refine ⟨?_, ?_⟩
    · intro d hl hd c hc
      have hde := hne d hd
      rw [hid d hd, hpend, Function.update_apply] at hc
      rw [hother d hde] at hl hd
      split at hc
      · cases hc
      · exact hplace d hl hd c hc
    · intro d hd
      have hde := hne d hd
      rw [hid d hd, hpend, Function.update_apply]
      rw [hother d hde] at hd ⊢
      rcases hkept d hd with h | h | h
      · exact Or.inl h
      · split
        · rename_i hsame
          rw [hsame] at h
          exact Or.inl (finished_under_live hr hlive h hde)
        · exact Or.inr (Or.inl h)
      · exact Or.inr (Or.inr h)
  | @take r e resp _ hin hpend hstage hother =>
    have hstored : ∀ d, (s'.calls d).pc.stored = true → (s.calls d).pc.stored = true :=
      fun d hd => (CallStep.stored_before (hcall d) hd).resolve_right (by simp)
    refine ⟨?_, ?_⟩
    · intro d hl hd c hc
      rw [hid d hd, hpend, Function.update_apply] at hc
      split at hc
      · cases hc
      · exact hplace d (CallStep.live_before (hcall d) (by simp) hl) (hstored d hd) c hc
    · intro d hd
      by_cases hde : d = e
      · subst hde
        simp [hstage, Stage.inHand]
      · rw [hid d hd, hpend, Function.update_apply]
        have hold := hkept d (hstored d hd)
        rw [hother d hde]
        rcases hold with h | h | h
        · exact Or.inl h
        · split
          · rename_i hsame
            rw [hsame, hin] at h
            cases h
            exact absurd rfl hde
          · exact Or.inr (Or.inl h)
        · exact Or.inr (Or.inr h)

omit [DecidableEq ι] in
theorem kept_init (args : ι → CallArgs Msg) : Kept (init args) where
  place := by simp [init, CallPc.stored]
  kept := by simp [init, CallPc.stored]

theorem kept_reach (h : (machine pb args).ReachUnder InWindow s) : Kept s :=
  h.invariant (kept_init args) fun _ _ _ hr hk _ hs => kept_step hr hk hs

/-- As long as no call is open while 2^32 ids are drawn: whatever stands under the id of a call
that is about to be stored is complete; a stored call that is not complete is in the table or
in the hand of a reader, so none is dropped; and a response is handed to the one call that it
is for, since no other stored call that is not complete carries its id. -/
theorem an_open_call_is_never_displaced (h : (machine pb args).ReachUnder InWindow s) :
    (∀ c d, (s.calls c).pc = .drawn → s.pendingCalls (s.calls c).requestId = some d →
      (s.calls d).finished = true) ∧
    (∀ c, (s.calls c).pc.stored = true → (s.calls c).finished = false →
      s.pendingCalls (s.calls c).requestId = some c ∨ Stage.inHand (s.calls c).stage = true) ∧
    (∀ r frame resp c, (s.readers r).pc = .message frame → pb.parseResponse frame = some resp →
      s.pendingCalls resp.requestId = some c → (s.calls c).requestId = resp.requestId ∧
        ∀ d, (s.calls d).pc.stored = true → (s.calls d).finished = false →
          (s.calls d).requestId = resp.requestId → d = c) := by
  have hk := kept_reach h
  refine ⟨?_, ?_, ?_⟩
  · intro c d hpc hd
    have hlive : (s.calls c).live = true := live_of_running (by simp [hpc, CallPc.hasId])
      (by simp [hpc]) (by simp [hpc])
    apply finished_under_live h hlive hd
    rintro rfl
    have hst := ((good_reach h.reach).table _ _ hd).2.1
    simp [hpc, CallPc.stored] at hst
  · intro c hc hf
    rcases hk.kept c hc with h' | h' | h'
    · rw [hf] at h'
      cases h'
    · exact Or.inl h'
    · exact Or.inr h'
  · intro r frame resp c _ _ hc
    refine ⟨((good_reach h.reach).table _ _ hc).1, ?_⟩
    intro d hd hf hid
    have hlive : (s.calls d).live = true := by
      cases hl : (s.calls d).live with
      | true => rfl
      | false =>
        rw [finished_of_not_live hd hl] at hf
        cases hf
    rw [← hid] at hc
    exact (hk.place d hlive hd c hc).symm

/-- Two calls are open at once: the first is in the table when the second has drawn its id. -/
theorem two_open_calls_have_their_own_places :
    ∃ s, (machine helloProto fun _ : Fin 2 => sayHello false).ReachUnder InWindow s ∧
      (s.calls 1).pc = .drawn ∧ s.pendingCalls 1 = some 0 ∧ (s.calls 0).finished = false ∧
      (∀ d, s.pendingCalls (s.calls 1).requestId = some d → (s.calls d).finished = true) := by
  obtain ⟨s, hs, hpc, hin, hopen⟩ :
      ∃ s, (machine helloProto fun _ : Fin 2 => sayHello false).ReachUnder InWindow s ∧
        (s.calls 1).pc = .drawn ∧ s.pendingCalls 1 = some 0 ∧ (s.calls 0).finished = false :=
    Machine.ReachUnder.of_run [.socket true, .connect true, .enter 0, .check 0, .draw 0, .insert 0,
      .enter 1, .check 1, .draw 1] (by decide +kernel)
  exact ⟨s, hs, hpc, hin, hopen, fun d hd =>
    (an_open_call_is_never_displaced hs).1 1 d hpc hd⟩

/-! ## A call that stays open while the counter goes round -/

/-- The first `n` ids are drawn: call 0 is in the table under id 1 and open, and the calls from
`n` on have not begun. -/
structure GoneRound (n : Nat) (s : Channel Nat Msg) : Prop where
  connected : s.connected = true
  free : s.connMu = none
  next : s.nextRequestId = UInt32.ofNat (1 + n)
  first : s.pendingCalls 1 = some 0
  opened : (s.calls 0).finished = false
  idle : ∀ c, n ≤ c → (s.calls c).pc = .idle

/-- A call that has drawn its id after the first `n` ids. -/
theorem goneRound_draw {args : Nat → CallArgs Msg} {s : Channel Nat Msg} {n : Nat}
    (h : (machine pb args).Reach s) (hs : GoneRound n s) :
    ∃ s', (machine pb args).Reach s' ∧ (s'.calls n).pc = .drawn ∧
      (s'.calls n).requestId = UInt32.ofNat (1 + n) ∧ s'.connected = true ∧ s'.connMu = none ∧
      s'.nextRequestId = UInt32.ofNat (1 + (n + 1)) ∧ s'.pendingCalls = s.pendingCalls ∧
      (∀ c, c ≠ n → s'.calls c = s.calls c) := by
  have hidle := hs.idle n (le_refl n)
  have h1 := h.step (a := .enter n) (step_iff.mpr ⟨by simp [enabled, hidle], rfl⟩)
  have h2 := h1.step (a := .check n) (step_iff.mpr ⟨by simp [enabled, effect, modify], rfl⟩)
  have h3 := h2.step (a := .draw n)
    (step_iff.mpr ⟨by simp [enabled, effect, modify, hs.connected], rfl⟩)
  refine ⟨_, h3, ?_⟩
  simp +contextual [effect, modify, hs.connected, hs.free, hs.next, UInt32.add_assoc]

/-- The next call draws its id, is stored, and fails with its write. As long as its id is not
1, it leaves call 0 where it is. -/
theorem goneRound_succ {args : Nat → CallArgs Msg} {s : Channel Nat Msg} {n : Nat} (hn : 0 < n)
    (hid : UInt32.ofNat (1 + n) ≠ 1) (h : (machine pb args).Reach s) (hs : GoneRound n s) :
    ∃ s', (machine pb args).Reach s' ∧ GoneRound (n + 1) s' := by
  obtain ⟨t, ht, hpc, hown, hcon, hmu, hnext, htable, hothers⟩ := goneRound_draw h hs
  have h1 := ht.step (a := .insert n) (step_iff.mpr ⟨by simp [enabled, hpc], rfl⟩)
  have h2 := h1.step (a := .write n none)
    (step_iff.mpr ⟨by simp [enabled, effect, modify, hmu], rfl⟩)
  have h3 := h2.step (a := .failWrite n) (step_iff.mpr ⟨by simp [enabled, effect, modify], rfl⟩)
  refine ⟨_, h3, ?_⟩
  have hzero : n ≠ 0 := by omega
  have hcalls : ∀ c, c ≠ n → (((t.effect pb args (.insert n)).effect pb args
      (.write n none)).effect pb args (.failWrite n)).calls c = s.calls c := by
    intro c hc
    simp [effect, modify, hc, hothers c hc]
  refine ⟨?_, ?_, ?_, ?_, ?_, ?_⟩
  · simpa [effect, modify] using hcon
  · simp [effect]
  · simpa [effect, modify] using hnext
  · simpa [effect, modify, hown, htable, Function.update_apply, hs.first] using hid
  · rw [hcalls 0 hzero.symm]
    exact hs.opened
  · intro c hc
    rw [hcalls c (by omega)]
    exact hs.idle c (by omega)

/-- Call 0 stays open while call after call fails with its write. -/
theorem goneRound_reach (n : Nat) (hn : n < 2 ^ 32) :
    ∃ s, (machine helloProto fun _ : Nat => sayHello false).Reach s ∧ GoneRound (n + 1) s := by
  induction n with
  | zero =>
    have h0 : (machine helloProto fun _ : Nat => sayHello false).Reach
        (init fun _ => sayHello false) := .init
    have h1 := h0.step (a := .socket true) (step_iff.mpr ⟨rfl, rfl⟩)
    have h2 := h1.step (a := .connect true) (step_iff.mpr ⟨rfl, rfl⟩)
    have h3 := h2.step (a := .enter 0) (step_iff.mpr ⟨rfl, rfl⟩)
    have h4 := h3.step (a := .check 0) (step_iff.mpr ⟨rfl, rfl⟩)
    have h5 := h4.step (a := .draw 0) (step_iff.mpr ⟨rfl, rfl⟩)
    have h6 := h5.step (a := .insert 0) (step_iff.mpr ⟨rfl, rfl⟩)
    refine ⟨_, h6, rfl, rfl, rfl, rfl, rfl, ?_⟩
    intro c hc
    have hne : c ≠ 0 := by omega
    simp [effect, modify, init, hne]
  | succ n ih =>
    obtain ⟨s, hs, hround⟩ := ih (by omega)
    refine goneRound_succ (by omega) ?_ hs hround
    intro hone
    have hmod := congrArg UInt32.toNat hone
    simp only [UInt32.toNat_ofNat'] at hmod
    change (1 + (n + 1)) % 2 ^ 32 = 1 at hmod
    omega

/-- After 2^32 draws the next call holds id 1 again, and will be stored over call 0, which
stands there and is not complete. -/
theorem an_open_call_is_displaced_after_a_round :
    ∃ s, (machine helloProto fun _ : Nat => sayHello false).Reach s ∧
      ∃ c d, (s.calls c).pc = .drawn ∧ s.pendingCalls (s.calls c).requestId = some d ∧
        (s.calls d).finished = false := by
  obtain ⟨s, hs, hround⟩ := goneRound_reach (2 ^ 32 - 1) (by omega)
  obtain ⟨t, ht, hpc, hown, -, -, -, htable, hothers⟩ :=
    goneRound_draw hs hround
  have hone : UInt32.ofNat (1 + (2 ^ 32 - 1 + 1)) = 1 := by decide
  refine ⟨t, ht, 2 ^ 32 - 1 + 1, 0, hpc, ?_, ?_⟩
  · rw [hown, hone, htable]
    exact hround.first
  · rw [hothers 0 (by omega)]
    exact hround.opened

end Channel

end rpc
