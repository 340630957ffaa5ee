import RedisSmq.Lib.Js.Decimal

/-!
# Properties of objects

The own properties of an object, in their order: array indexes first and ascending, then the other names as they were
added.

- `setProperty`: a property is replaced where it stands, or else added in its place;
- `ofMembers`: an object that is built member by member. It is in order (`inOrder_ofMembers`), and one that was in order
  is built as it was (`ofMembers_of_inOrder`).
-/

namespace Js

variable {α β : Type*}

/-- The array index that a name is. -/
def arrayIndex (k : JsString) : Option ℕ :=
  (readInt k).bind fun p => if p.2 = [] ∧ natValue p.1 < 2 ^ 32 - 1 then some (natValue p.1) else none

/-- A property of the first name stays before one of the second that is added later. -/
def staysBefore (k k' : JsString) : Bool :=
  match arrayIndex k, arrayIndex k' with
  | some i, some j => i < j
  | some _, none => true
  | none, some _ => false
  | none, none => true

/-- Add a property of a new name in its place. -/
def addProperty (k : JsString) (v : α) : List (JsString × α) → List (JsString × α)
  | [] => [(k, v)]
  | p :: ps => if staysBefore p.1 k then p :: addProperty k v ps else (k, v) :: p :: ps

/-- Set a property. -/
def setProperty (ps : List (JsString × α)) (k : JsString) (v : α) : List (JsString × α) :=
  if k ∈ ps.map Prod.fst then ps.map fun p => if p.1 = k then (k, v) else p else addProperty k v ps

/-- Set properties one after the other. -/
def assign (ps ms : List (JsString × α)) : List (JsString × α) := ms.foldl (fun ps m => setProperty ps m.1 m.2) ps

/-- The object with the given members; of several with one name, the last one counts. -/
def ofMembers (ms : List (JsString × α)) : List (JsString × α) := assign [] ms

/-- Names are distinct, and in the order of properties. -/
def InOrder (ks : List JsString) : Prop := ks.Pairwise fun k k' => staysBefore k k' = true ∧ k ≠ k'

/-! ## Array indexes -/

theorem digitUnit_digitOf {u : UInt16} {d : Fin 10} (h : digitOf u = some d) : digitUnit d = u := by
  unfold digitOf at h
  split at h
  · rename_i hu
    cases h
    rw [digitUnit, show 0x30 + (u.toNat - 0x30) = u.toNat by omega, UInt16.ofNat_toNat]
  · cases h

theorem readDigits_append (s : JsString) : (readDigits s).1.map digitUnit ++ (readDigits s).2 = s := by
  induction s with
  | nil => rfl
  | cons u rest ih =>
    cases h : digitOf u with
    | none => simp only [readDigits, h, List.map_nil, List.nil_append]
    | some d => simp only [readDigits, h, List.map_cons, List.cons_append, ih, digitUnit_digitOf h]

theorem natDigits_natValue {ds : List (Fin 10)} (h : ds.head? ≠ some 0) : natDigits (natValue ds) = ds := by
  have hdigits : Nat.digits 10 (natValue ds) = ds.reverse.map Fin.val := by
    apply Nat.digits_ofDigits 10 (by decide)
    · intro n hn
      obtain ⟨d, -, rfl⟩ := List.mem_map.mp hn
      exact d.isLt
    · intro hne hlast
      have hrev : ds.reverse ≠ [] := fun h0 => hne (by rw [h0]; rfl)
      rw [List.getLast_map, List.getLast_reverse] at hlast
      rw [List.head?_eq_some_head (List.reverse_ne_nil_iff.mp hrev)] at h
      exact h (congrArg some (Fin.ext hlast))
  rw [natDigits, hdigits, ← List.map_reverse, List.reverse_reverse, List.map_map]
  conv_rhs => rw [← List.map_id ds]
  apply List.map_congr_left
  intro d hd
  exact Fin.ext (Nat.mod_eq_of_lt d.isLt)

/-- Digits without a needless zero are determined by the number. -/
theorem digits_eq {ds : List (Fin 10)} (hne : ds ≠ []) (h : ds.head? = some 0 → ds.length = 1) :
    ds = if natValue ds = 0 then [0] else natDigits (natValue ds) := by
  by_cases h0 : ds.head? = some 0
  · obtain ⟨d, rfl⟩ := List.length_eq_one_iff.mp (h h0)
    cases h0
    rfl
  · have hds := natDigits_natValue h0
    rw [if_neg, hds]
    intro hv
    rw [hv] at hds
    exact hne hds.symm

theorem readInt_spec {k : JsString} {p : List (Fin 10) × JsString} (h : readInt k = some p) :
    k = p.1.map digitUnit ++ p.2 ∧ p.1 ≠ [] ∧ (p.1.head? = some 0 → p.1.length = 1) := by
  obtain ⟨hread, hlead⟩ := Option.filter_eq_some_iff.mp h
  unfold readDigits1 at hread
  split at hread
  · cases hread
  · rename_i hne
    obtain rfl := Option.some.inj hread
    refine ⟨(readDigits_append k).symm, hne, fun h0 => ?_⟩
    simpa [h0] using hlead

theorem arrayIndex_injective {k k' : JsString} {i : ℕ} (h : arrayIndex k = some i) (h' : arrayIndex k' = some i) :
    k = k' := by
  obtain ⟨p, hp, hi⟩ := Option.bind_eq_some_iff.mp h
  obtain ⟨p', hp', hi'⟩ := Option.bind_eq_some_iff.mp h'
  obtain ⟨hk, hne, hlead⟩ := readInt_spec hp
  obtain ⟨hk', hne', hlead'⟩ := readInt_spec hp'
  split at hi
  · split at hi'
    · rename_i hc hc'
      have hv : natValue p.1 = natValue p'.1 := (Option.some.inj hi).trans (Option.some.inj hi').symm
      rw [hk, hk', hc.1, hc'.1, digits_eq hne hlead, digits_eq hne' hlead', hv]
    · cases hi'
  · cases hi

/-! ## Objects in order -/

theorem staysBefore_trans {k p q : JsString} (h : staysBefore k p = true) (h' : staysBefore p q = true) :
    staysBefore k q = true := by
  unfold staysBefore at h h' ⊢
  cases hk : arrayIndex k <;> cases hp : arrayIndex p <;> cases hq : arrayIndex q <;>
    simp only [hk, hp, hq, decide_eq_true_eq, Bool.false_eq_true] at h h' ⊢
  omega

/-- A name that does not stay before a new one goes after it. -/
theorem staysBefore_of_not {k p : JsString} (hne : p ≠ k) (h : staysBefore p k = false) : staysBefore k p = true := by
  unfold staysBefore at h ⊢
  cases hp : arrayIndex p with
  | none =>
    cases hk : arrayIndex k with
    | none => simp only [hp, hk, Bool.true_eq_false] at h
    | some j => rfl
  | some i =>
    cases hk : arrayIndex k with
    | none => simp only [hp, hk, Bool.true_eq_false] at h
    | some j =>
      have hij : i ≠ j := by
        rintro rfl
        exact hne (arrayIndex_injective hp hk)
      simp only [hp, hk, decide_eq_false_iff_not, decide_eq_true_eq] at h ⊢
      omega

theorem map_fst_replace (ps : List (JsString × α)) (k : JsString) (v : α) :
    (ps.map fun p => if p.1 = k then (k, v) else p).map Prod.fst = ps.map Prod.fst := by
  rw [List.map_map]
  apply List.map_congr_left
  intro p hp
  simp only [Function.comp_apply]
  split
  · rename_i h
    exact h.symm
  · rfl

theorem mem_addProperty {ps : List (JsString × α)} {k : JsString} {v : α} {q : JsString × α}
    (h : q ∈ addProperty k v ps) : q = (k, v) ∨ q ∈ ps := by
  induction ps with
  | nil => exact .inl (List.mem_singleton.mp h)
  | cons p ps ih =>
    unfold addProperty at h
    split at h
    · rcases List.mem_cons.mp h with rfl | h
      · exact .inr List.mem_cons_self
      · exact (ih h).imp id (List.mem_cons_of_mem p)
    · exact List.mem_cons.mp h

theorem inOrder_addProperty {ps : List (JsString × α)} {k : JsString} (h : InOrder (ps.map Prod.fst))
    (hk : k ∉ ps.map Prod.fst) (v : α) : InOrder ((addProperty k v ps).map Prod.fst) := by
  induction ps with
  | nil => exact List.pairwise_singleton _ _
  | cons p ps ih =>
    obtain ⟨hp, hps⟩ := List.pairwise_cons.mp h
    have hkp : k ≠ p.1 := fun he => hk (List.mem_cons.mpr (.inl he))
    have hkps : k ∉ ps.map Prod.fst := fun hmem => hk (List.mem_cons_of_mem _ hmem)
    unfold addProperty
    split
    · rename_i hstays
      refine List.pairwise_cons.mpr ⟨fun q hq => ?_, ih hps hkps⟩
      obtain ⟨q', hq', rfl⟩ := List.mem_map.mp hq
      rcases mem_addProperty hq' with rfl | hq
      · exact ⟨hstays, fun he => hkp he.symm⟩
      · exact hp _ (List.mem_map_of_mem hq)
    · rename_i hstays
      have hbefore := staysBefore_of_not (Ne.symm hkp) (Bool.eq_false_iff.mpr hstays)
      refine List.pairwise_cons.mpr ⟨fun q hq => ?_, h⟩
      have hne : k ≠ q := fun he => hk (he ▸ hq)
      rcases List.mem_cons.mp hq with rfl | hq
      · exact ⟨hbefore, hne⟩
      · exact ⟨staysBefore_trans hbefore (hp q hq).1, hne⟩

theorem inOrder_setProperty {ps : List (JsString × α)} (h : InOrder (ps.map Prod.fst)) (k : JsString) (v : α) :
    InOrder ((setProperty ps k v).map Prod.fst) := by
  unfold setProperty
  split
  · rw [map_fst_replace]
    exact h
  · rename_i hk
    exact inOrder_addProperty h hk v

theorem inOrder_assign {ps : List (JsString × α)} (h : InOrder (ps.map Prod.fst)) (ms : List (JsString × α)) :
    InOrder ((assign ps ms).map Prod.fst) := by
  induction ms generalizing ps with
  | nil => exact h
  | cons m ms ih => exact ih (inOrder_setProperty h m.1 m.2)

/-- An object is in order however it is built. -/
theorem inOrder_ofMembers (ms : List (JsString × α)) : InOrder ((ofMembers ms).map Prod.fst) := by
  apply inOrder_assign
  exact List.Pairwise.nil

/-- A name that all names stay before is added at the end. -/
theorem setProperty_end {ps : List (JsString × α)} {k : JsString}
    (h : ∀ p ∈ ps, staysBefore p.1 k = true ∧ p.1 ≠ k) (v : α) : setProperty ps k v = ps ++ [(k, v)] := by
  have hk : k ∉ ps.map Prod.fst := by
    intro hk
    obtain ⟨p, hp, rfl⟩ := List.mem_map.mp hk
    exact (h p hp).2 rfl
  rw [setProperty, if_neg hk]
  clear hk
  induction ps with
  | nil => rfl
  | cons p ps ih =>
    rw [addProperty, if_pos (h p List.mem_cons_self).1, ih fun q hq => h q (List.mem_cons_of_mem p hq)]
    rfl

theorem assign_end {ps ms : List (JsString × α)} (h : InOrder ((ps ++ ms).map Prod.fst)) :
    assign ps ms = ps ++ ms := by
  induction ms generalizing ps with
  | nil => exact (List.append_nil ps).symm
  | cons m ms ih =>
    have hend : ∀ p ∈ ps, staysBefore p.1 m.1 = true ∧ p.1 ≠ m.1 := by
      intro p hp
      rw [List.map_append] at h
      exact (List.pairwise_append.mp h).2.2 _ (List.mem_map_of_mem hp) _ List.mem_cons_self
    rw [List.append_cons] at h ⊢
    rw [assign, List.foldl_cons, setProperty_end hend]
    exact ih h

/-- An object that is in order is built as it is. -/
theorem ofMembers_of_inOrder {ms : List (JsString × α)} (h : InOrder (ms.map Prod.fst)) : ofMembers ms = ms :=
  assign_end h

theorem mem_setProperty {ps : List (JsString × α)} {k : JsString} {v : α} {q : JsString × α}
    (h : q ∈ setProperty ps k v) : q = (k, v) ∨ q ∈ ps := by
  unfold setProperty at h
  split at h
  · obtain ⟨p, hp, rfl⟩ := List.mem_map.mp h
    split
    · exact .inl rfl
    · exact .inr hp
  · exact mem_addProperty h

theorem mem_assign {ps ms : List (JsString × α)} {q : JsString × α} (h : q ∈ assign ps ms) : q ∈ ps ∨ q ∈ ms := by
  induction ms generalizing ps with
  | nil => exact .inl h
  | cons m ms ih =>
    rcases ih h with h | h
    · rcases mem_setProperty h with rfl | h
      · exact .inr List.mem_cons_self
      · exact .inl h
    · exact .inr (List.mem_cons_of_mem m h)

/-- Every property comes from a member. -/
theorem mem_ofMembers {ms : List (JsString × α)} {q : JsString × α} (h : q ∈ ofMembers ms) : q ∈ ms :=
  (mem_assign h).resolve_left List.not_mem_nil

/-! ## Values under names that do not change -/

/-- Each value is replaced by its image. -/
def mapValues (f : α → β) (ps : List (JsString × α)) : List (JsString × β) := ps.map fun p => (p.1, f p.2)

theorem map_fst_mapValues (f : α → β) (ps : List (JsString × α)) :
    (mapValues f ps).map Prod.fst = ps.map Prod.fst := by
  rw [mapValues, List.map_map]
  rfl

theorem addProperty_mapValues (f : α → β) (k : JsString) (v : α) (ps : List (JsString × α)) :
    addProperty k (f v) (mapValues f ps) = mapValues f (addProperty k v ps) := by
  induction ps with
  | nil => rfl
  | cons p ps ih =>
    rw [mapValues, List.map_cons, addProperty, addProperty]
    split
    · exact congrArg _ ih
    · rfl

theorem setProperty_mapValues (f : α → β) (ps : List (JsString × α)) (k : JsString) (v : α) :
    setProperty (mapValues f ps) k (f v) = mapValues f (setProperty ps k v) := by
  rw [setProperty, setProperty, map_fst_mapValues]
  split
  · rw [mapValues, mapValues, List.map_map, List.map_map]
    apply List.map_congr_left
    intro p hp
    simp only [Function.comp_apply]
    split <;> rfl
  · exact addProperty_mapValues f k v ps

theorem assign_mapValues (f : α → β) (ps ms : List (JsString × α)) :
    assign (mapValues f ps) (mapValues f ms) = mapValues f (assign ps ms) := by
  induction ms generalizing ps with
  | nil => rfl
  | cons m ms ih =>
    have hhead : assign (mapValues f ps) (mapValues f (m :: ms)) =
        assign (setProperty (mapValues f ps) m.1 (f m.2)) (mapValues f ms) := rfl
    rw [hhead, setProperty_mapValues, ih]
    rfl

theorem ofMembers_mapValues (f : α → β) (ms : List (JsString × α)) :
    ofMembers (mapValues f ms) = mapValues f (ofMembers ms) :=
  assign_mapValues f [] ms

/-- Properties of names that are there are replaced where they stand. -/
theorem assign_of_subset {ps ms : List (JsString × α)} (hsub : ∀ m ∈ ms, m.1 ∈ ps.map Prod.fst)
    (hnodup : (ms.map Prod.fst).Nodup) : assign ps ms = ps.map fun p => (p.1, (ms.lookup p.1).getD p.2) := by
  induction ms generalizing ps with
  | nil => simp [assign]
  | cons m ms ih =>
    obtain ⟨k, v⟩ := m
    obtain ⟨hk, hms⟩ := List.nodup_cons.mp hnodup
    have hset : setProperty ps k v = ps.map fun p => if p.1 = k then (k, v) else p :=
      if_pos (hsub (k, v) List.mem_cons_self)
    have hsub' : ∀ m ∈ ms, m.1 ∈ (setProperty ps k v).map Prod.fst := by
      intro m hm
      rw [hset, map_fst_replace]
      exact hsub m (List.mem_cons_of_mem (k, v) hm)
    have hassign : assign ps ((k, v) :: ms) = assign (setProperty ps k v) ms := rfl
    rw [hassign, ih hsub' hms, hset, List.map_map]
    apply List.map_congr_left
    intro p hp
    simp only [Function.comp_apply]
    split
    · rename_i h
      have hnone : ms.lookup k = none := by
        refine List.lookup_eq_none_iff.mpr fun m hm => bne_iff_ne.mpr fun he => hk ?_
        exact List.mem_map.mpr ⟨m, hm, he.symm⟩
      rw [h, List.lookup_cons_self, hnone]
      rfl
    · rename_i h
      rw [List.lookup_cons, beq_false_of_ne h]

theorem lookup_mapValues (f : α → β) (ps : List (JsString × α)) (k : JsString) :
    (mapValues f ps).lookup k = (ps.lookup k).map f := by
  induction ps with
  | nil => rfl
  | cons p ps ih =>
    obtain ⟨k', v⟩ := p
    rw [mapValues, List.map_cons, List.lookup_cons, List.lookup_cons]
    cases k == k' with
    | true => rfl
    | false => exact ih

/-- The value of a name that occurs once. -/
theorem lookup_of_mem {ps : List (JsString × α)} (h : (ps.map Prod.fst).Nodup) {p : JsString × α} (hp : p ∈ ps) :
    ps.lookup p.1 = some p.2 := by
  induction ps with
  | nil => exact absurd hp List.not_mem_nil
  | cons q ps ih =>
    obtain ⟨hq, hps⟩ := List.nodup_cons.mp h
    obtain ⟨k, v⟩ := q
    rcases List.mem_cons.mp hp with rfl | hp
    · exact List.lookup_cons_self
    · have hne : p.1 ≠ k := fun he => hq (List.mem_map.mpr ⟨p, hp, he⟩)
      rw [List.lookup_cons, beq_false_of_ne hne]
      exact ih hps hp

/-! ## Looking up what was set -/

theorem lookup_cons_ite (p : JsString × α) (ps : List (JsString × α)) (k : JsString) :
    (p :: ps).lookup k = if k = p.1 then some p.2 else ps.lookup k := by
  rw [List.lookup_cons]
  by_cases h : k = p.1
  · rw [if_pos h, h, beq_self_eq_true]
  · rw [if_neg h, beq_false_of_ne h]

theorem lookup_addProperty {ps : List (JsString × α)} {k : JsString} (hk : k ∉ ps.map Prod.fst) (v : α) (k' : JsString) :
    (addProperty k v ps).lookup k' = if k' = k then some v else ps.lookup k' := by
  induction ps with
  | nil => exact lookup_cons_ite (k, v) [] k'
  | cons p ps ih =>
    obtain ⟨hp, hps⟩ := not_or.mp (mt List.mem_cons.mpr hk)
    unfold addProperty
    split
    · rw [lookup_cons_ite, lookup_cons_ite, ih hps]
      by_cases h : k' = p.1
      · have hne : k' ≠ k := fun he => hp (he.symm.trans h)
        rw [if_pos h, if_neg hne, if_pos h]
      · rw [if_neg h, if_neg h]
    · exact lookup_cons_ite (k, v) (p :: ps) k'

theorem lookup_replace {ps : List (JsString × α)} {k : JsString} (hk : k ∈ ps.map Prod.fst) (v : α) (k' : JsString) :
    (ps.map fun p => if p.1 = k then (k, v) else p).lookup k' = if k' = k then some v else ps.lookup k' := by
  by_cases h : k' = k
  · -- the first property of the name is replaced
    rw [if_pos h]
    induction ps with
    | nil => exact absurd hk List.not_mem_nil
    | cons p ps ih =>
      rw [List.map_cons, lookup_cons_ite]
      by_cases hp : p.1 = k
      · rw [if_pos hp, if_pos h]
      · have hps : k ∈ ps.map Prod.fst := (List.mem_cons.mp hk).resolve_left fun he => hp he.symm
        have hne : k' ≠ p.1 := fun he => hp (he.symm.trans h)
        rw [if_neg hp, if_neg hne]
        exact ih hps
  · rw [if_neg h]
    clear hk
    induction ps with
    | nil => rfl
    | cons p ps ih =>
      rw [List.map_cons, lookup_cons_ite, lookup_cons_ite, ih]
      by_cases hp : p.1 = k
      · have hne : k' ≠ p.1 := fun he => h (he.trans hp)
        rw [if_pos hp, if_neg h, if_neg hne]
      · rw [if_neg hp]

/-- The value that was set, and those of the other names. -/
theorem lookup_setProperty (ps : List (JsString × α)) (k : JsString) (v : α) (k' : JsString) :
    (setProperty ps k v).lookup k' = if k' = k then some v else ps.lookup k' := by
  unfold setProperty
  split
  · rename_i h
    exact lookup_replace h v k'
  · rename_i h
    exact lookup_addProperty h v k'

/-- What is assigned comes first. -/
theorem lookup_assign {ms : List (JsString × α)} (h : (ms.map Prod.fst).Nodup) (ps : List (JsString × α)) (k : JsString) :
    (assign ps ms).lookup k = (ms.lookup k).or (ps.lookup k) := by
  induction ms generalizing ps with
  | nil => rfl
  | cons m ms ih =>
    obtain ⟨hm, hms⟩ := List.nodup_cons.mp h
    have hhead : assign ps (m :: ms) = assign (setProperty ps m.1 m.2) ms := rfl
    rw [hhead, ih hms, lookup_setProperty, lookup_cons_ite]
    by_cases hk : k = m.1
    · have hnone : ms.lookup k = none := by
        refine List.lookup_eq_none_iff.mpr fun q hq => bne_iff_ne.mpr fun he => hm ?_
        exact List.mem_map.mpr ⟨q, hq, he.symm.trans hk⟩
      rw [if_pos hk, if_pos hk, hnone]
      rfl
    · rw [if_neg hk, if_neg hk]

/-- Assigning removes no name. -/
theorem isSome_lookup_assign {ps : List (JsString × α)} {k : JsString} (h : (ps.lookup k).isSome = true)
    (ms : List (JsString × α)) : ((assign ps ms).lookup k).isSome = true := by
  induction ms generalizing ps with
  | nil => exact h
  | cons m ms ih =>
    have hset : ((setProperty ps m.1 m.2).lookup k).isSome = true := by
      rw [lookup_setProperty]
      split
      · rfl
      · exact h
    exact ih hset

end Js
