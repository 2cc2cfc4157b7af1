import LiteRt.WeightCache.MissHandler

/-!
# Runs of the handler for cache misses

Each call keeps the places of the buffers. An offset is new exactly if the call meets the
condition, and then the memory of everything appended so far stays as it is.
-/

namespace LiteRt.WeightCache.Misses

open LiteRt.Lib List

variable {s s' : State} {ptr fresh : Address} {data : List UInt8} {op : Op}
  {found : Buffer × List Buffer}

def State.reserve (s : State) (size : Nat) (ptr : Address) : State :=
  { s with handler := s.handler.reserve size ptr }

/-- After a buffer was used. -/
def State.mark (s : State) (found : Buffer × List Buffer) (data : List UInt8) : State where
  handler := { s.handler with buffers := found.2 }
  offsetToAddr := s.offsetToAddr.emplace found.1.loc.offset found.1.ptr
  appended := s.appended ++ [(found.1.loc.offset, data)]
  allNew := s.allNew && !s.offsetToAddr.contains found.1.loc.offset

theorem buffers_reserve (s : State) (size : Nat) (ptr : Address) :
    ∃ kept, (s.reserve size ptr).handler.buffers =
        ⟨List.replicate size 0, ⟨s.handler.minOffset + s.handler.buffers.length, size⟩, ptr, false⟩ ::
          kept ∧
      (s.handler.buffers = kept ∧ (∀ b ∈ kept.head?, b.used = true) ∨
        ∃ last, s.handler.buffers = last :: kept ∧ last.used = false) := by
  unfold State.reserve CacheMissHandler.reserve
  cases hbuffers : s.handler.buffers with
  | nil => exact ⟨[], rfl, .inl ⟨rfl, by simp⟩⟩
  | cons last rest =>
    cases hused : last.used with
    | true => exact ⟨last :: rest, by simp [hused], .inl ⟨rfl, by simpa using hused⟩⟩
    | false => exact ⟨rest, by simp [hused], .inr ⟨last, rfl, hused⟩⟩

theorem Handled.reserve (h : Handled s) (size : Nat) (hfree : s.IsFree ptr) :
    Handled (s.reserve size ptr) := by
  obtain ⟨kept, hbuffers, hkept⟩ := buffers_reserve s size ptr
  have hsub : ∀ b ∈ kept, b ∈ s.handler.buffers := by
    obtain ⟨heq, -⟩ | ⟨last, heq, -⟩ := hkept
    · intro b hb
      rwa [heq]
    · intro b hb
      rw [heq]
      exact mem_cons_of_mem last hb
  have hptr : ∀ offset, s.offsetToAddr.find? offset ≠ some ptr := fun offset hfind =>
    hfree.2 _ (InsertOrderMap.mem_of_find? hfind) rfl
  refine ⟨?_, ?_, ?_, ?_, ?_⟩
  · have hplaced := h.placed
    have hmin : (s.reserve size ptr).handler.minOffset = s.handler.minOffset := by
      unfold State.reserve CacheMissHandler.reserve
      split
      · rfl
      · split <;> rfl
    rw [hmin]
    unfold CacheMissHandler.offsets at hplaced ⊢
    rw [hbuffers, map_cons]
    obtain ⟨heq, -⟩ | ⟨last, heq, -⟩ := hkept
    · rw [heq] at hplaced ⊢
      exact ⟨.inl (by rw [length_map]), hplaced⟩
    · rw [heq] at hplaced ⊢
      exact ⟨.inr (by rw [length_map]; rfl), hplaced.2⟩
  · intro b hb
    rw [hbuffers, tail_cons] at hb
    have hused := h.used
    obtain ⟨heq, hhead⟩ | ⟨last, heq, -⟩ := hkept
    · rw [heq] at hused
      cases kept with
      | nil => cases hb
      | cons first rest =>
        rcases mem_cons.1 hb with rfl | hb
        · exact hhead b rfl
        · exact hused b hb
    · rw [heq] at hused
      exact hused b hb
  · rw [hbuffers, pairwise_cons]
    refine ⟨fun b hb => (hfree.1 b (hsub b hb)).symm, ?_⟩
    have hdistinct := h.distinct
    obtain ⟨heq, -⟩ | ⟨last, heq, -⟩ := hkept
    · rwa [heq] at hdistinct
    · rw [heq] at hdistinct
      exact hdistinct.tail
  · intro b hb hused
    rw [hbuffers] at hb
    rcases mem_cons.1 hb with rfl | hb
    · cases hused
    · exact h.mapped b (hsub b hb) hused
  · intro offset b hb hfind
    rw [hbuffers] at hb
    rcases mem_cons.1 hb with rfl | hb
    · exact absurd hfind (hptr offset)
    · exact h.keys offset b (hsub b hb) hfind

theorem Handled.mark (h : Handled s)
    (hfound : CacheMissHandler.useAt ptr data s.handler.buffers = some found) :
    Handled (s.mark found data) := by
  obtain ⟨before, b, after, hbuffers, -, -, hfirst, hsecond⟩ := useAt_eq_some hfound
  have hdistinct := h.distinct
  rw [hbuffers] at hdistinct
  have hmem : b ∈ s.handler.buffers := by simp [hbuffers]
  -- A buffer of the new list is the one that was used, or an old one with another address.
  have hcases : ∀ b' ∈ found.2, b' = found.1 ∨ b' ∈ s.handler.buffers ∧ b'.ptr ≠ b.ptr := by
    intro b' hb'
    obtain ⟨-, hafter, hbefore⟩ := pairwise_append.1 hdistinct
    rw [hsecond] at hb'
    rw [hbuffers, hfirst]
    rcases mem_append.1 hb' with hb' | hb'
    · exact .inr ⟨mem_append_left _ hb', hbefore b' hb' b (mem_cons_self ..)⟩
    · rcases mem_cons.1 hb' with rfl | hb'
      · exact .inl rfl
      · refine .inr ⟨mem_append_right _ (mem_cons_of_mem _ hb'), ?_⟩
        exact (rel_of_pairwise_cons hafter hb').symm
  refine ⟨?_, ?_, ?_, ?_, ?_⟩
  · have hplaced := h.placed
    unfold CacheMissHandler.offsets at hplaced ⊢
    change Placed s.handler.minOffset (found.2.map fun b => b.loc.offset)
    rw [hbuffers] at hplaced
    rw [hsecond]
    simpa using hplaced
  · intro b' hb'
    change b' ∈ found.2.tail at hb'
    have hused := h.used
    rw [hsecond] at hb'
    rw [hbuffers] at hused
    cases before with
    | nil => exact hused b' hb'
    | cons first before =>
      rcases mem_append.1 hb' with hb' | hb'
      · exact hused b' (mem_append_left _ hb')
      · rcases mem_cons.1 hb' with rfl | hb'
        · rfl
        · exact hused b' (mem_append_right _ (mem_cons_of_mem _ hb'))
  · change found.2.Pairwise fun b b' => b.ptr ≠ b'.ptr
    have hptrs : found.2.map Buffer.ptr = (before ++ b :: after).map Buffer.ptr := by
      rw [hsecond]
      simp
    rw [← pairwise_map] at hdistinct ⊢
    rwa [hptrs]
  · intro b' hb' hused
    change (s.offsetToAddr.emplace found.1.loc.offset found.1.ptr).find? b'.loc.offset ≠ none
    rw [InsertOrderMap.find?_emplace]
    rcases hcases b' hb' with rfl | ⟨hold, -⟩
    · split
      · simp
      · rename_i hnot
        exact fun hnone => hnot ⟨hnone, rfl⟩
    · have hmapped := h.mapped b' hold hused
      rw [if_neg fun hand => hmapped hand.1]
      exact hmapped
  · intro offset b' hb' hfind
    change (s.offsetToAddr.emplace found.1.loc.offset found.1.ptr).find? offset = some b'.ptr at hfind
    rw [InsertOrderMap.find?_emplace] at hfind
    have hloc : found.1.loc = b.loc := by rw [hfirst]
    have hptr : found.1.ptr = b.ptr := by rw [hfirst]
    rcases hcases b' hb' with rfl | ⟨hold, hne⟩
    · refine ⟨by rw [hfirst], ?_⟩
      split at hfind
      · rename_i hnew
        exact hnew.2.symm
      · rw [hptr] at hfind
        rw [hloc]
        exact (h.keys offset b hmem hfind).2
    · split at hfind
      · rw [hptr] at hfind
        exact absurd (Option.some.inj hfind).symm hne
      · exact h.keys offset b' hold hfind

theorem Handled.addEntries (h : Handled s) {entries : List (Nat × Address)}
    (hentries : ∀ entry ∈ entries, ∀ b ∈ s.handler.buffers, b.ptr ≠ entry.2) :
    Handled { s with offsetToAddr := addEntries entries s.offsetToAddr } where
  placed := h.placed
  used := h.used
  distinct := h.distinct
  mapped b hb hused := by
    rw [find?_addEntries]
    exact fun hnone => h.mapped b hb hused (Option.or_eq_none_iff.1 hnone).1
  keys offset b hb hfind := by
    rw [find?_addEntries] at hfind
    rcases Option.or_eq_some_iff.1 hfind with hold | ⟨-, hnew⟩
    · exact h.keys offset b hb hold
    · exact absurd rfl (hentries _ (InsertOrderMap.mem_of_find? hnew) b hb)

/-! ## Steps -/

/-- The data is in a buffer, or in memory that is reserved for it first. -/
theorem step_append (s : State) (ptr : Address) (data : List UInt8) (fresh : Address) :
    (∃ found, CacheMissHandler.useAt ptr data s.handler.buffers = some found ∧
      step s (.append ptr data fresh) = some (s.mark found data)) ∨
    (∀ b ∈ s.handler.buffers, b.ptr ≠ ptr) ∧ ∃ found, CacheMissHandler.useAt fresh data
          (s.reserve data.length fresh).handler.buffers = some found ∧
        found.1.loc.offset = s.handler.minOffset + s.handler.buffers.length ∧
        step s (.append ptr data fresh) = some ((s.reserve data.length fresh).mark found data) := by
  cases hptr : CacheMissHandler.useAt ptr data s.handler.buffers with
  | some found =>
    refine .inl ⟨found, rfl, ?_⟩
    unfold step CacheMissHandler.append
    simp only [hptr]
    rfl
  | none =>
    refine .inr ⟨useAt_eq_none.1 hptr, ?_⟩
    obtain ⟨kept, hbuffers, -⟩ := buffers_reserve s data.length fresh
    have hused : ∃ found, CacheMissHandler.useAt fresh data
        (s.reserve data.length fresh).handler.buffers = some found ∧
          found.1.loc.offset = s.handler.minOffset + s.handler.buffers.length := by
      rw [hbuffers]
      unfold CacheMissHandler.useAt
      rw [if_pos rfl]
      exact ⟨_, rfl, rfl⟩
    obtain ⟨found, hfound, hoffset⟩ := hused
    refine ⟨found, hfound, hoffset, ?_⟩
    unfold step CacheMissHandler.append
    unfold State.reserve at hfound
    simp only [hptr, hfound]
    rfl

theorem Handled.step (h : Handled s) (hp : Possible s op) (hs : step s op = some s') :
    Handled s' := by
  cases op with
  | reserve size ptr =>
    cases hs
    exact h.reserve size hp
  | append ptr data fresh =>
    obtain ⟨found, hfound, hstep⟩ | ⟨-, found, hfound, -, hstep⟩ := step_append s ptr data fresh
    · cases hs.symm.trans hstep
      exact h.mark hfound
    · cases hs.symm.trans hstep
      exact (h.reserve data.length hp).mark hfound
  | buildStep entries =>
    cases hs
    exact h.addEntries hp

theorem contains_eq_false {addresses : InsertOrderMap Nat Address} {offset : Nat} :
    InsertOrderMap.contains addresses offset = false ↔ addresses.find? offset = none := by
  rw [InsertOrderMap.find?_eq_none, ← InsertOrderMap.contains_iff, Bool.not_eq_true]

theorem Handled.waits_iff (h : Handled s) {last : Buffer} {rest : List Buffer}
    (hbuffers : s.handler.buffers = last :: rest) (hunused : last.used = false) :
    s.offsetToAddr.find? last.loc.offset = none ↔ s.Waits last.ptr := by
  have hplaced := h.placed
  have hused := h.used
  rw [h.find?_eq_none]
  unfold State.Waits
  unfold CacheMissHandler.offsets at hplaced ⊢
  rw [hbuffers] at hused hplaced ⊢
  simp only [true_and, hunused]
  refine and_congr_left' ?_
  obtain ⟨hlast, hrest⟩ := hplaced
  have hlength : (rest.map fun b => b.loc.offset).length = rest.length := length_map ..
  rw [forall_mem_cons]
  constructor
  · rintro ⟨-, hnew⟩ hahead
    obtain heq | heq := hlast
    · obtain ⟨b, hb, hoffset⟩ := mem_map.1 (heq ▸ hrest.mem_iff.2 hahead)
      exact absurd hoffset (hnew b hb (hused b hb))
    · exact heq
  · refine fun himp => ⟨fun hfalse => ?_, fun b hb _ hoffset => ?_⟩
    · rw [hunused] at hfalse
      cases hfalse
    · have hmem : last.loc.offset ∈ rest.map fun b => b.loc.offset := mem_map.2 ⟨b, hb, hoffset⟩
      obtain heq | heq := hlast
      · exact Nat.succ_ne_self _ ((himp (hrest.mem_iff.1 (heq ▸ hmem))).symm.trans heq)
      · exact Nat.not_succ_le_self _ (Nat.le_trans (Nat.le_of_eq heq.symm) (hrest.le hmem).1)

/-- The offset behind the buffers. -/
theorem Handled.unreserved_iff (h : Handled s) (hptr : ∀ b ∈ s.handler.buffers, b.ptr ≠ ptr) :
    s.offsetToAddr.find? (s.handler.minOffset + s.handler.buffers.length) = none ↔
      s.Unreserved ptr := by
  have hplaced := h.placed
  have hlength : s.handler.offsets.length = s.handler.buffers.length := length_map ..
  rw [h.find?_eq_none]
  unfold State.Unreserved
  rw [and_iff_right hptr]
  refine and_congr_left' ?_
  rw [← hlength, ← hplaced.mem_iff]
  constructor
  · intro hnew hmem
    obtain ⟨b, hb, hoffset⟩ := mem_map.1 hmem
    have hunused : b.used = false := by
      by_contra hne
      exact hnew b hb (Bool.not_eq_false _ ▸ hne) hoffset
    cases hbuffers : s.handler.buffers with
    | nil =>
      rw [hbuffers] at hb
      cases hb
    | cons last rest =>
      have hused := h.used
      rw [hbuffers] at hb hused
      rcases mem_cons.1 hb with rfl | hb
      · exact ⟨b, rfl, hunused⟩
      · rw [hused b hb] at hunused
        cases hunused
  · intro himp b hb hbused hoffset
    obtain ⟨last, hlast, hunused⟩ := himp (mem_map.2 ⟨b, hb, hoffset⟩)
    obtain ⟨rest, hbuffers⟩ := head?_eq_some_iff.1 hlast
    unfold CacheMissHandler.offsets at hplaced hlength hoffset
    rw [hbuffers] at hb hplaced hoffset
    rcases mem_cons.1 hb with rfl | hb
    · rw [hunused] at hbused
      cases hbused
    · have hle := (hplaced.2.le (mem_map.2 ⟨b, hb, rfl⟩)).1
      rw [hoffset, map_cons, length_cons] at hle
      omega

/-- `Append` gives out a new offset exactly if it meets the condition. -/
theorem Handled.allNew_iff (h : Handled s) (hs : Misses.step s op = some s') :
    s'.allNew = true ↔ s.allNew = true ∧ Meets s op := by
  cases op with
  | reserve size ptr =>
    cases hs
    exact (and_iff_left trivial).symm
  | buildStep entries =>
    cases hs
    exact (and_iff_left trivial).symm
  | append ptr data fresh =>
    obtain ⟨found, hfound, hstep⟩ | ⟨hptr, found, hfound, hoffset, hstep⟩ :=
      step_append s ptr data fresh
    · cases hs.symm.trans hstep
      obtain ⟨before, b, after, hbuffers, hbefore, rfl, hfirst, -⟩ := useAt_eq_some hfound
      have hloc : found.1.loc = b.loc := by rw [hfirst]
      have hb : b ∈ s.handler.buffers := by simp [hbuffers]
      change (s.allNew && !s.offsetToAddr.contains found.1.loc.offset) = true ↔ _
      rw [Bool.and_eq_true, Bool.not_eq_true', contains_eq_false, hloc]
      refine and_congr_right' ?_
      have hnot : ¬ s.Unreserved b.ptr := fun hun => hun.1 b hb rfl
      change _ ↔ s.Waits b.ptr ∨ s.Unreserved b.ptr
      rw [or_iff_left hnot]
      cases hused : b.used with
      | true =>
        refine iff_of_false (h.mapped b hb hused) fun hwaits => ?_
        unfold State.Waits at hwaits
        cases before with
        | nil =>
          rw [hbuffers] at hwaits
          rw [hwaits.2.1] at hused
          cases hused
        | cons first before =>
          rw [hbuffers] at hwaits
          exact hbefore first (mem_cons_self ..) hwaits.1
      | false =>
        cases before with
        | nil => exact h.waits_iff hbuffers hused
        | cons first before =>
          have htail := h.used
          rw [hbuffers] at htail
          rw [htail b (by simp)] at hused
          cases hused
    · cases hs.symm.trans hstep
      change (s.allNew && !s.offsetToAddr.contains found.1.loc.offset) = true ↔ _
      rw [Bool.and_eq_true, Bool.not_eq_true', contains_eq_false, hoffset]
      refine and_congr_right' ?_
      have hnot : ¬ s.Waits ptr := by
        intro hwaits
        unfold State.Waits at hwaits
        cases hbuffers : s.handler.buffers with
        | nil =>
          rw [hbuffers] at hwaits
          exact hwaits
        | cons last rest =>
          rw [hbuffers] at hwaits hptr
          exact hptr last (mem_cons_self ..) hwaits.1
      change _ ↔ s.Waits ptr ∨ s.Unreserved ptr
      rw [or_iff_right hnot]
      exact h.unreserved_iff hptr

/-! ## What stays in memory -/

theorem Handled.resolved_reserve (h : Handled s) (hr : s.Resolved) (size : Nat) (ptr : Address) :
    (s.reserve size ptr).Resolved := by
  obtain ⟨kept, hbuffers, hkept⟩ := buffers_reserve s size ptr
  intro p hp
  obtain ⟨b, hb, hfind, hdata⟩ := hr p hp
  refine ⟨b, ?_, hfind, hdata⟩
  rw [hbuffers]
  refine mem_cons_of_mem _ ?_
  obtain ⟨heq, -⟩ | ⟨last, heq, hunused⟩ := hkept
  · rwa [heq] at hb
  · rw [heq] at hb
    rcases mem_cons.1 hb with rfl | hb'
    · rw [(h.keys p.1 b (by simp [heq]) hfind).1] at hunused
      cases hunused
    · exact hb'

/-- A buffer that was not used yet gets an address, and the others keep theirs. -/
theorem Handled.resolved_mark (h : Handled s) (hr : s.Resolved)
    (hfound : CacheMissHandler.useAt ptr data s.handler.buffers = some found)
    (hnew : s.offsetToAddr.find? found.1.loc.offset = none) : (s.mark found data).Resolved := by
  obtain ⟨before, b, after, hbuffers, -, -, hfirst, hsecond⟩ := useAt_eq_some hfound
  have hunused : b.used = false := by
    by_contra hused
    have hmapped := h.mapped b (by simp [hbuffers]) (Bool.not_eq_false _ ▸ hused)
    rw [hfirst] at hnew
    exact hmapped hnew
  intro p hp
  change ∃ b' ∈ found.2, (s.offsetToAddr.emplace found.1.loc.offset found.1.ptr).find? p.1 =
    some b'.ptr ∧ b'.data = p.2
  rw [InsertOrderMap.find?_emplace]
  rcases mem_append.1 (show p ∈ s.appended ++ [(found.1.loc.offset, data)] from hp) with
    hp | hp
  · obtain ⟨b', hb', hfind, hdata⟩ := hr p hp
    refine ⟨b', ?_, ?_, hdata⟩
    · have hused := (h.keys p.1 b' hb' hfind).1
      rw [hbuffers] at hb'
      rw [hsecond]
      rcases mem_append.1 hb' with hb' | hb'
      · exact mem_append_left _ hb'
      · rcases mem_cons.1 hb' with rfl | hb'
        · rw [hunused] at hused
          cases hused
        · exact mem_append_right _ (mem_cons_of_mem _ hb')
    · rw [if_neg, hfind]
      rintro ⟨hnone, -⟩
      rw [hfind] at hnone
      cases hnone
  · rw [mem_singleton.1 hp]
    refine ⟨found.1, ?_, if_pos ⟨hnew, rfl⟩, by rw [hfirst]⟩
    rw [hsecond, hfirst]
    exact mem_append_right _ (mem_cons_self ..)

theorem Handled.resolved_step (h : Handled s) (hp : Possible s op) (hr : s.Resolved)
    (hs : Misses.step s op = some s') (hnew : s'.allNew = true) : s'.Resolved := by
  cases op with
  | reserve size ptr =>
    cases hs
    exact h.resolved_reserve hr size ptr
  | append ptr data fresh =>
    obtain ⟨found, hfound, hstep⟩ | ⟨-, found, hfound, -, hstep⟩ := step_append s ptr data fresh
    · cases hs.symm.trans hstep
      have hall : (s.allNew && !s.offsetToAddr.contains found.1.loc.offset) = true := hnew
      rw [Bool.and_eq_true, Bool.not_eq_true', contains_eq_false] at hall
      exact h.resolved_mark hr hfound hall.2
    · cases hs.symm.trans hstep
      have hall : (s.allNew && !s.offsetToAddr.contains found.1.loc.offset) = true := hnew
      rw [Bool.and_eq_true, Bool.not_eq_true', contains_eq_false] at hall
      exact (h.reserve data.length hp).resolved_mark (h.resolved_reserve hr data.length fresh)
        hfound hall.2
  | buildStep entries =>
    cases hs
    intro p hp
    obtain ⟨b, hb, hfind, hdata⟩ := hr p hp
    refine ⟨b, hb, ?_, hdata⟩
    change (Misses.addEntries entries s.offsetToAddr).find? p.1 = some b.ptr
    rw [find?_addEntries, hfind, Option.some_or]

/-! ## Runs -/

theorem handled_loaded (minOffset : Nat) (addresses : InsertOrderMap Nat Address) :
    Handled (.loaded minOffset addresses) :=
  ⟨trivial, forall_mem_nil _, .nil, forall_mem_nil _, fun _ _ hb => nomatch hb⟩

/-- If all offsets were new at the end of a run, each of its calls has met the condition. -/
theorem Handled.run_meets {ops : List Op} (h : Handled s) (hrun : Run Possible Misses.step s ops s')
    (hnew : s'.allNew = true) :
    s.allNew = true ∧ Run (fun s op => Possible s op ∧ Meets s op) Misses.step s ops s' := by
  induction hrun with
  | nil s => exact ⟨hnew, .nil s⟩
  | cons hp hs hrest ih =>
    obtain ⟨hall, hmeets⟩ := ih (h.step hp hs) hnew
    obtain ⟨hall, hcall⟩ := (h.allNew_iff hs).1 hall
    exact ⟨hall, .cons ⟨hp, hcall⟩ hs hmeets⟩

def twiceReserved : List Op :=
  [.reserve 1 ⟨1, 0⟩, .reserve 1 ⟨2, 0⟩, .append ⟨2, 0⟩ [7] ⟨3, 0⟩, .reserve 1 ⟨3, 0⟩,
    .append ⟨3, 0⟩ [8] ⟨4, 0⟩]

instance (s : State) (ptr : Address) : Decidable (s.IsFree ptr) :=
  inferInstanceAs (Decidable (_ ∧ _))

instance (s : State) : ∀ op, Decidable (Possible s op)
  | .reserve _ ptr => inferInstanceAs (Decidable (s.IsFree ptr))
  | .append _ _ fresh => inferInstanceAs (Decidable (s.IsFree fresh))
  | .buildStep _ => inferInstanceAs (Decidable (∀ _ ∈ _, ∀ _ ∈ _, _))

end LiteRt.WeightCache.Misses
