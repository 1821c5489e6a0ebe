import Mistress.JsonRoundTrip

/-!
# JSON without loss

The values that come back as they were once they have been encoded and decoded: those made of
arrays, of objects with names that differ, and of numbers that their fourteen digits are rounded
to (`Regular`).

What a value comes back as is known (`decoded`); it remains to see that it is the value itself.

* An array comes back with its elements under the same numbers (`decoded_elementsFrom`): all its
  keys are numbers, the greatest is their number, and so `isarray` gives its length.
* An object comes back with its fields in the same order (`decoded_objectFields`), as long as
  `isarray` does not take it for an array. It does where all the names are `n` and a number is
  given there, which it takes for the length: `{n = 3}` is written as `[null,null,null]`. This is
  excluded by `notLength`.
-/

open LuaStack

namespace Mistress.Json

open HttpParser (byte bytes)

/-! ## Regular values -/

/-- The elements of an array, after `i` others. -/
def elementsFrom {α : Type} (i : ℕ) : List α → List (Val × α)
  | [] => []
  | v :: vs => (.num (i + 1 : ℕ), v) :: elementsFrom (i + 1) vs

namespace Val

/-- An array, with the metatable that `json.decode` gives it. -/
def array (vs : List Val) : Val := .table (some .array) (elementsFrom 0 vs)

/-- An object, with the metatable that `json.decode` gives it. -/
def object (fields : List (Bytes × Val)) : Val :=
  .table (some .object) (fields.map fun f => (.str f.1, f.2))

/-- What does not make an array of an object. -/
def notLength (name : Bytes) (v : Val) : Prop := name ≠ [110] ∨ v.typeName ≠ "number"

end Val

/-- A value that is written without loss. -/
inductive Regular (round : ℚ → Number) : Val → Prop
  | bool (b : Bool) : Regular round (.bool b)
  | num {n : ℚ} : round (shown n) = n → Regular round (.num n)
  | str (s : Bytes) : Regular round (.str s)
  | array {vs : List Val} : (∀ v ∈ vs, Regular round v) → Regular round (.array vs)
  | object {fields : List (Bytes × Val)} : (fields.map (·.1)).Nodup →
      (fields = [] ∨ ∃ f ∈ fields, f.2.notLength f.1) → (∀ f ∈ fields, Regular round f.2) →
        Regular round (.object fields)

/-! ### Arrays -/

/-- Going through `i` elements and those of `vs`, `isarray` finds the greatest key to be the
    number of them. -/
theorem isarray_elementsFrom (vs : List Val) (i : ℕ) :
    (elementsFrom i vs).foldlM isarrayStep (.finite i, i, .finite 0) =
      some (.finite (i + vs.length : ℕ), i + vs.length, .finite 0) := by
  induction vs generalizing i with
  | nil => rfl
  | cons v vs ih =>
    have hstep : isarrayStep (.finite i, i, .finite 0) (.num (i + 1 : ℕ), v) =
        some (.finite (i + 1 : ℕ), i + 1, .finite 0) := by
      have hlt : Number.lt (.finite i) (i + 1 : ℕ) = true :=
        decide_eq_true (by exact_mod_cast Nat.lt_succ_self i)
      have hone : Number.lt (i + 1 : ℕ) (.finite 1) = false :=
        decide_eq_false (not_lt.2 (by exact_mod_cast Nat.succ_pos i))
      have hfloor : Number.floor (i + 1 : ℕ) = (i + 1 : ℕ) :=
        congrArg Number.finite (congrArg Int.cast (Int.floor_natCast (i + 1)))
      have heq : Number.eq (i + 1 : ℕ) (i + 1 : ℕ) = true := by
        rw [Number.eq, decide_eq_true rfl]
        rfl
      rw [isarrayStep, hfloor, hone, heq, if_neg (by simp), if_pos hlt]
      rfl
    rw [elementsFrom, List.foldlM_cons, hstep, Option.bind_eq_bind, Option.bind_some, ih (i + 1),
      List.length_cons]
    simp only [Nat.add_assoc, Nat.add_comm 1]

theorem isarray_array (vs : List Val) :
    isarray (elementsFrom 0 vs) = some (.finite vs.length) := by
  have h := isarray_elementsFrom vs 0
  rw [Nat.cast_zero, Nat.zero_add] at h
  rw [isarray, h, Option.bind_some]
  refine if_neg fun hlong => ?_
  have hlt : ((vs.length * 2 : ℕ) : ℚ) < vs.length := by
    exact_mod_cast of_decide_eq_true hlong.2.2
  have : vs.length * 2 < vs.length := by exact_mod_cast hlt
  omega

theorem sameKey_num {m n : ℕ} : (Val.num m).sameKey (.num n) = decide (m = n) := by
  have h : ((m : Number) = n) ↔ m = n := by
    refine ⟨fun h => ?_, fun h => h ▸ rfl⟩
    exact Nat.cast_injective (Number.finite.inj h)
  have hnan : (m : Number) ≠ .nan := nofun
  simp [Val.sameKey, Number.eq, h, hnan]

theorem Entries.get_cons (k v : Val) (tbl : Entries) (k' : Val) : Entries.get ((k, v) :: tbl) k' =
    if k.sameKey k' = true then some v else tbl.get k' := by
  rw [Entries.get, List.find?_cons]
  cases k.sameKey k' <;> rfl

/-- The elements are found under their numbers. -/
theorem find_elementsFrom {α : Type} {vs : List α} {i j : ℕ} {v : α} (hj : vs[j]? = some v) :
    (elementsFrom i vs).find? (fun e => e.1.sameKey (.num (i + 1 + j : ℕ))) =
      some (.num (i + 1 + j : ℕ), v) := by
  induction vs generalizing i j with
  | nil => cases hj
  | cons v' vs ih =>
    rw [elementsFrom, List.find?_cons, sameKey_num]
    cases j with
    | zero =>
      obtain rfl : v' = v := by simpa using hj
      simp
    | succ j =>
      have hne : decide (i + 1 = i + 1 + (j + 1)) = false := by simp
      have hsucc : i + 1 + (j + 1) = i + 1 + 1 + j := by omega
      rw [hne, hsucc]
      exact ih hj

/-- A new key is the last one. -/
theorem Entries.set_of_not {tbl : Entries} {k : Val} (h : ∀ e ∈ tbl, e.1.sameKey k = false)
    (v : Val) :
    tbl.set k (some v) = tbl ++ [(k, v)] := by
  rw [Entries.set, if_neg]
  rw [List.any_eq_true]
  rintro ⟨e, he, hkey⟩
  rw [h e he] at hkey
  cases hkey

/-- Reading the elements one after the other gives them in order. -/
theorem array_elementsFrom {tbl : List (Val × Option Val)} :
    ∀ {vs : List Val} {i : ℕ} {t : Entries},
      (∀ j (hj : j < vs.length), valueAt tbl (.num (i + 1 + j : ℕ)) = some vs[j]) →
        (∀ e ∈ t, ∀ j, i < j → e.1.sameKey (.num (j : ℕ)) = false) →
          array tbl t (List.range' (i + 1) vs.length) = t ++ elementsFrom i vs := by
  intro vs
  induction vs with
  | nil => exact fun _ _ => (List.append_nil _).symm
  | cons v vs ih =>
    intro i t hget hfresh
    have hfirst : valueAt tbl (.num (i + 1 : ℕ)) = some v := hget 0 (Nat.succ_pos _)
    have hset := Entries.set_of_not (fun e he => hfresh e he (i + 1) (Nat.lt_succ_self i)) v
    rw [List.length_cons, List.range'_succ, array, List.foldl_cons, hfirst, hset, elementsFrom]
    refine (ih (fun j hj => ?_) fun e he j hj => ?_).trans (by simp)
    · have hnext := hget (j + 1) (Nat.succ_lt_succ hj)
      have hsucc : i + 1 + (j + 1) = i + 1 + 1 + j := by omega
      rwa [List.getElem_cons_succ, hsucc] at hnext
    · rcases List.mem_append.1 he with he | he
      · exact hfresh e he j (by omega)
      · rw [List.mem_singleton.1 he, sameKey_num, decide_eq_false_iff_not]
        omega

variable {round : ℚ → Number}

theorem decodedEntries_elementsFrom (vs : List Val) (i : ℕ) :
    decodedEntries round (elementsFrom i vs) = elementsFrom i (vs.map (decoded round)) := by
  induction vs generalizing i with
  | nil => rfl
  | cons v vs ih => rw [elementsFrom, decodedEntries, ih, List.map_cons, elementsFrom]

/-- Elements are no object, even if there are none, unless the metatable says so. -/
theorem not_isObject_elementsFrom {jsontype : Option JsonType} (h : jsontype ≠ some .object)
    (vs : List Val) : ¬isObject jsontype (elementsFrom 0 vs) := by
  rw [isObject, isarray_array]
  simp [h]

/-- A table with elements, all of which come back, comes back as an array of what they come back
    as. -/
theorem decoded_elementsFrom {jsontype : Option JsonType} (hne : jsontype ≠ some .object)
    {vs vs' : List Val} (h : vs.map (decoded round) = vs'.map some) :
    decoded round (.table jsontype (elementsFrom 0 vs)) = some (.array vs') := by
  have hlen : vs.length = vs'.length := by simpa using congrArg List.length h
  rw [decoded, if_neg (not_isObject_elementsFrom hne vs), isarray_array]
  dsimp only
  rw [Nat.floor_natCast, decodedEntries_elementsFrom, h, hlen, Val.array]
  refine congrArg (fun entries => some (Val.table (some .array) entries)) ?_
  refine (array_elementsFrom (fun j hj => ?_) (by simp)).trans (List.nil_append _)
  have hfind : (vs'.map some)[j]? = some (some vs'[j]) := by
    rw [List.getElem?_map, List.getElem?_eq_getElem hj, Option.map_some]
  rw [valueAt, find_elementsFrom hfind, Option.bind_some]

/-! ### Objects -/

/-- A name that is no number, and no `n` with a number, makes it an object. -/
theorem isarray_object {fields : List (Bytes × Val)} (h : ∃ f ∈ fields, f.2.notLength f.1) :
    isarray (fields.map fun f => (.str f.1, f.2)) = none := by
  have hstep {f : Bytes × Val} (hf : f.2.notLength f.1) (s : Number × ℕ × Number) :
      isarrayStep s (.str f.1, f.2) = none := by
    unfold isarrayStep
    split
    · rename_i heq
      obtain ⟨hname, hvalue⟩ := Prod.mk.inj heq
      rcases hf with hf | hf
      · exact absurd (Val.str.inj hname) hf
      · exact absurd (congrArg Val.typeName hvalue) hf
    · rename_i heq
      cases (Prod.mk.inj heq).1
    · rfl
  have hfold (s : Number × ℕ × Number) :
      (fields.map fun f => ((.str f.1, f.2) : Val × Val)).foldlM isarrayStep s = none := by
    induction fields generalizing s with
    | nil =>
      obtain ⟨f, hf, -⟩ := h
      cases hf
    | cons f fields ih =>
      rw [List.map_cons, List.foldlM_cons]
      by_cases hf : f.2.notLength f.1
      · rw [hstep hf]
        rfl
      · obtain ⟨g, hg, hlength⟩ := h
        rcases List.mem_cons.1 hg with rfl | hg
        · exact absurd hlength hf
        · cases isarrayStep s (.str f.1, f.2) with
          | none => rfl
          | some s' => exact ih ⟨g, hg, hlength⟩ s'
  rw [isarray, hfold]
  rfl

theorem isObject_object {fields : List (Bytes × Val)}
    (hlength : fields = [] ∨ ∃ f ∈ fields, f.2.notLength f.1) :
    isObject (some .object) (fields.map fun f => (.str f.1, f.2)) := by
  rcases hlength with rfl | hlength
  · exact .inl ⟨rfl, rfl⟩
  · exact .inr (isarray_object hlength)

/-- Reading the fields one after the other gives them in order, if their names differ. -/
theorem object_fields : ∀ {fields : List (Bytes × Val)} {t : Entries},
    (fields.map (·.1)).Nodup → (∀ f ∈ fields, ∀ e ∈ t, e.1.sameKey (.str f.1) = false) →
      object (fields.map fun f => (.str f.1, some f.2)) t =
        t ++ fields.map fun f => (.str f.1, f.2) := by
  intro fields
  induction fields with
  | nil => exact fun _ _ => (List.append_nil _).symm
  | cons f fields ih =>
    intro t hnodup hfresh
    rw [List.map_cons, List.nodup_cons] at hnodup
    obtain ⟨hf, hfresh⟩ := List.forall_mem_cons.1 hfresh
    have hset := Entries.set_of_not hf f.2
    rw [List.map_cons, object, List.foldl_cons, keyText, hset]
    refine (ih hnodup.2 fun g hg e he => ?_).trans (by simp)
    rcases List.mem_append.1 he with he | he
    · exact hfresh g hg e he
    · rw [List.mem_singleton.1 he, Val.sameKey, decide_eq_false_iff_not]
      exact fun heq => hnodup.1 (heq ▸ List.mem_map_of_mem hg)

/-- A table with fields, all of which come back, comes back as an object of what they come back
    as. -/
theorem decoded_objectFields {jsontype : Option JsonType} {fields fields' : List (Bytes × Val)}
    (hobject : isObject jsontype (fields.map fun f => (.str f.1, f.2)))
    (hnodup : (fields.map (·.1)).Nodup)
    (h : fields.map (fun f => (f.1, decoded round f.2)) = fields'.map fun f => (f.1, some f.2)) :
    decoded round (.table jsontype (fields.map fun f => (.str f.1, f.2))) =
      some (.object fields') := by
  have hentries : decodedEntries round (fields.map fun f => (.str f.1, f.2)) =
      fields'.map fun f => (.str f.1, some f.2) := by
    have hmap := congrArg (List.map fun f : Bytes × Option Val => (Val.str f.1, f.2)) h
    rw [List.map_map, List.map_map] at hmap
    rw [decodedEntries_eq, List.map_map]
    exact hmap
  have hnodup' : (fields'.map (·.1)).Nodup := by
    have hnames := congrArg (List.map (·.1)) h
    rw [List.map_map, List.map_map] at hnames
    exact hnames ▸ hnodup
  rw [decoded, if_pos hobject, hentries, Val.object]
  exact congrArg (fun entries => some (Val.table (some .object) entries))
    ((object_fields hnodup' (by simp)).trans (List.nil_append _))

/-! ### Without loss -/

/-- A regular value comes back, if it is encoded at all, -/
theorem Regular.decoded_eq {v : Val} (h : Regular round v) : decoded round v = some v := by
  induction h with
  | bool b => rfl
  | num h => rw [decoded, h]
  | str s => rfl
  | array _ ih => exact decoded_elementsFrom (by decide) (List.map_congr_left ih)
  | object hnodup hlength _ ih =>
    refine decoded_objectFields (isObject_object hlength) hnodup ?_
    refine List.map_congr_left fun f hf => ?_
    rw [ih f hf]

/-- An array is encoded where its elements are. -/
theorem elements_ok {tbl : List (Val × Encoded)} (h : ∀ e ∈ tbl, ∃ x, e.2 = .ok x) (m : ℚ)
    (is : List ℕ) : ∃ text, elements tbl m is = .ok text := by
  induction is with
  | nil => exact ⟨_, rfl⟩
  | cons i is ih =>
    obtain ⟨text, htext⟩ := ih
    rw [elements, htext]
    cases hfind : tbl.find? fun e => e.1.sameKey (.num i) with
    | none => exact ⟨_, rfl⟩
    | some e =>
      obtain ⟨x, hx⟩ := h e (List.mem_of_find?_eq_some hfind)
      rw [Option.map_some, Option.getD_some, hx]
      exact ⟨_, rfl⟩

/-- An object is encoded where its fields are: names are always encoded. -/
theorem pairs_ok {tbl : List (Val × Encoded)}
    (h : ∀ e ∈ tbl, (∃ s, e.1 = .str s) ∧ ∃ x, e.2 = .ok x) (prev : Bool) : ∃ text, pairs prev tbl = .ok text := by
  induction tbl generalizing prev with
  | nil => exact ⟨_, rfl⟩
  | cons e tbl ih =>
    obtain ⟨⟨⟨s, hs⟩, x, hx⟩, htbl⟩ := List.forall_mem_cons.1 h
    obtain ⟨text, htext⟩ := ih htbl true
    obtain ⟨k, value⟩ := e
    obtain rfl : k = .str s := hs
    obtain rfl : value = .ok x := hx
    rw [pairs, htext]
    exact ⟨_, rfl⟩

theorem mem_elementsFrom {vs : List Val} {i : ℕ} {e : Val × Val} (h : e ∈ elementsFrom i vs) :
    e.2 ∈ vs := by
  induction vs generalizing i with
  | nil => cases h
  | cons v vs ih =>
    rcases List.mem_cons.1 h with rfl | h
    · exact List.mem_cons_self
    · exact List.mem_cons_of_mem _ (ih h)

theorem encode_elementsFrom {jsontype : Option JsonType} (hne : jsontype ≠ some .object)
    {vs : List Val} (h : ∀ v ∈ vs, ∃ x, encode v = .ok x) :
    ∃ text, encode (.table jsontype (elementsFrom 0 vs)) = .ok text := by
  have hok : ∀ e ∈ encodeEntries (elementsFrom 0 vs), ∃ x, e.2 = .ok x := fun e he => by
    rw [encodeEntries_eq] at he
    obtain ⟨e, hmem, rfl⟩ := List.mem_map.1 he
    exact h e.2 (mem_elementsFrom hmem)
  obtain ⟨text, htext⟩ := elements_ok hok vs.length (List.range' 1 ⌊(vs.length : ℚ)⌋₊)
  rw [encode, if_neg (not_isObject_elementsFrom hne vs), isarray_array]
  dsimp only
  rw [htext]
  exact ⟨_, rfl⟩

theorem encode_objectFields {jsontype : Option JsonType} {fields : List (Bytes × Val)}
    (hobject : isObject jsontype (fields.map fun f => (.str f.1, f.2)))
    (h : ∀ f ∈ fields, ∃ x, encode f.2 = .ok x) :
    ∃ text, encode (.table jsontype (fields.map fun f => (.str f.1, f.2))) = .ok text := by
  have hok : ∀ e ∈ encodeEntries (fields.map fun f => (.str f.1, f.2)),
      (∃ s, e.1 = .str s) ∧ ∃ x, e.2 = .ok x := fun e he => by
    rw [encodeEntries_eq, List.map_map] at he
    obtain ⟨f, hf, rfl⟩ := List.mem_map.1 he
    exact ⟨⟨f.1, rfl⟩, h f hf⟩
  obtain ⟨text, htext⟩ := pairs_ok hok false
  rw [encode, if_pos hobject, htext]
  exact ⟨_, rfl⟩

/-- and it is. -/
theorem Regular.encode_ok {v : Val} (h : Regular round v) : ∃ text, encode v = .ok text := by
  induction h with
  | bool b => exact ⟨_, rfl⟩
  | num h => exact ⟨_, rfl⟩
  | str s => exact ⟨_, rfl⟩
  | array _ ih => exact encode_elementsFrom (by decide) ih
  | object _ hlength _ ih => exact encode_objectFields (isObject_object hlength) ih

/-- A regular value comes back as it was. -/
theorem Regular.lossless {v : Val} (h : Regular round v) :
    ∃ text, encode v = .ok text ∧ decode round text = pure (some v, text.length + 1) := by
  obtain ⟨text, htext⟩ := h.encode_ok
  have hdecode : decode round text = _ := Decodes.decode (decodes v) htext
  rw [h.decoded_eq] at hdecode
  exact ⟨text, htext, hdecode⟩

theorem Regular.lossless_object :
    let v := Val.object [(bytes "step", .num (.finite (1 / 4))),
      (bytes "data", .array [.bool true, .str [200]])]
    ∃ text, encode v = .ok text ∧ decode .finite text = pure (some v, text.length + 1) := by
  have hshown : shown (1 / 4) = 1 / 4 := shown_eq_iff.2 ⟨25, -2, by decide, by norm_num⟩
  refine Regular.lossless (.object (by decide) (.inr ⟨_, List.mem_cons_self, .inl (by decide)⟩) ?_)
  simp only [List.forall_mem_cons]
  exact ⟨.num (congrArg Number.finite hshown), .array (by simp [Regular.bool, Regular.str]),
    List.forall_mem_nil _⟩

end Mistress.Json
