import Mathlib.Data.List.Basic

/-!
# Classes

Classes are tables that inherit from `Object`: a key that a table lacks is looked up in the
`__index` of its metatable, the class it has been made from. A class made by `inherit` has a
function `super` that knows its parent; a method calls the one of its parent by
`self:super().m(...)`.

But `super` is looked up through the instance, which finds the one of its class, the most
derived one, whatever class the calling method is from. And the function in between returns
nothing. So a call does what it is to do (`Inherits`) if and only if `super` is called by a
method of the class of the instance only, and the next method above it neither calls `super`
nor returns a value (`inherits_iff`). Otherwise that method is called again, and for ever if it
always calls `super` (`not_call`).
-/

namespace Mistress

namespace Object

/-- A table, by its place in the heap. -/
abbrev Ref := ℕ

/-- The keys of `Object` by which classes and instances are made. -/
def machinery : List String := ["__index", "construct", "inherit", "init_super", "new", "super"]

/-- The name of a method that is not one of these. -/
abbrev MethodName := {m : String // m ∉ machinery}

/-- `init` -/
def initName : MethodName := ⟨"init", by decide⟩

/-- What the body of a method does, when called on an instance: it may call `super` once and
    go on with what this returns. `σ` is the rest of the state. -/
inductive Body (V σ : Type)
  | ret (v : Option V) (s : σ)
  | super (args : List (Option V)) (s : σ) (finish : Option V → σ → Option V × σ)

/-- A method, which is called with arguments. A value is `none` if it is `nil`. -/
abbrev Method (V σ : Type) := List (Option V) → σ → Body V σ

/-- A table: a class or an instance. -/
structure Table (V σ : Type) where
  methods : MethodName → Option (Method V σ)
  /-- The function `super`, by the `self` of `init_super` it has captured. -/
  super : Option Ref
  /-- The field `__index`. -/
  index : Option Ref
  metatable : Option Ref

abbrev Heap (V σ : Type) := List (Table V σ)

variable {V σ : Type}

/-- `Object:init_super` -/
def initSuper (h : Heap V σ) (self cls : Ref) : Heap V σ :=
  h.modify cls fun t => { t with super := some self }

/-- `Object:construct`, up to the call of `init`: the heap and the new table. -/
def construct (h : Heap V σ) (self : Ref) (isInheritMode : Bool) : Heap V σ × Ref :=
  let obj := h.length
  let h := h ++ [⟨fun _ => none, none, none, some self⟩]
  let h := h.modify self fun t => { t with index := some self }
  (if isInheritMode then initSuper h self obj else h, obj)

/-- A method is defined in a class. -/
def define (h : Heap V σ) (cls : Ref) (m : MethodName) (f : Method V σ) : Heap V σ :=
  h.modify cls fun t => { t with methods := fun n => if n = m then some f else t.methods n }

/-- `Object`, whose method `init` does nothing. -/
def object : Table V σ where
  methods m := if m = initName then some fun _ s => .ret none s else none
  super := none
  index := none
  metatable := none

/-- A class: `Object`, or a table that `inherit` has made. -/
def IsClass (h : Heap V σ) (r : Ref) : Prop :=
  r = 0 ∨ ∃ t, h[r]? = some t ∧ t.super.isSome

/-- The heaps that can be built, with any number of classes and instances. -/
inductive Built : Heap V σ → Prop
  | object : Built [object]
  | inherit {h : Heap V σ} {self : Ref} : Built h → IsClass h self →
    Built (construct h self true).1
  | new {h : Heap V σ} {self : Ref} : Built h → IsClass h self →
    Built (construct h self false).1
  | define {h : Heap V σ} {cls : Ref} {m : MethodName} {f : Method V σ} : Built h → IsClass h cls →
    Built (define h cls m f)

/-! ## Lookup -/

/-- `Finds h get r v`: a key, by what `get` finds of it in a table, is looked up in `r`. It is
    found in a table, or it is `nil`. -/
inductive Finds {α : Type} (h : Heap V σ) (get : Table V σ → Option α) :
    Ref → Option (Ref × α) → Prop
  | raw {r : Ref} {t : Table V σ} {a : α} : h[r]? = some t → get t = some a →
    Finds h get r (some (r, a))
  | index {r p i : Ref} {t tp : Table V σ} {v : Option (Ref × α)} : h[r]? = some t →
    get t = none → t.metatable = some p → h[p]? = some tp → tp.index = some i →
    Finds h get i v → Finds h get r v
  | noIndex {r p : Ref} {t tp : Table V σ} : h[r]? = some t → get t = none →
    t.metatable = some p → h[p]? = some tp → tp.index = none → Finds h get r none
  | noMetatable {r : Ref} {t : Table V σ} : h[r]? = some t → get t = none →
    t.metatable = none → Finds h get r none

/-! ## Calls -/

/-- What happens in a call: a method of a class is entered on an instance, or a call of
    `super` returns. -/
inductive Event (V : Type)
  | enter (cls inst : Ref)
  | returned (v : Option V)

/-- How a call ends: with a value, or with an error when there is no such method. -/
inductive Outcome (V σ : Type)
  | ok (v : Option V) (s : σ)
  | error

/-- What is left to be done when a call of `super` ends. -/
def finish (f : Option V → σ → Option V × σ) : Outcome V σ → Outcome V σ
  | .ok v s => .ok (f v s).1 (f v s).2
  | .error => .error

/-- The event of the return of `super`, if it returns. -/
def returned : Outcome V σ → List (Event V)
  | .ok v _ => [.returned v]
  | .error => []

/-- What the function that `super` gives returns: it calls the method of the parent, without
    a `return`. -/
def discard : Outcome V σ → Outcome V σ
  | .ok _ s => .ok none s
  | .error => .error

/-- `Call h inst m r args s o es`: the method `m`, as it is looked up in `r`, is called on
    the instance, and ends. -/
inductive Call (h : Heap V σ) (inst : Ref) (m : MethodName) :
    Ref → List (Option V) → σ → Outcome V σ → List (Event V) → Prop
  | undefined {r : Ref} {args : List (Option V)} {s : σ} :
    Finds h (·.methods m) r none → Call h inst m r args s .error []
  | ret {r cls : Ref} {f : Method V σ} {args : List (Option V)} {s s' : σ} {v : Option V} :
    Finds h (·.methods m) r (some (cls, f)) → f args s = .ret v s' →
    Call h inst m r args s (.ok v s') [.enter cls inst]
  | noSuper {r cls : Ref} {f : Method V σ} {args args' : List (Option V)} {s s' : σ}
    {k : Option V → σ → Option V × σ} :
    Finds h (·.methods m) r (some (cls, f)) → f args s = .super args' s' k →
    Finds h (·.super) inst none → Call h inst m r args s .error [.enter cls inst]
  /-- `self:super()` is looked up in the instance; its parent `p` is where the method is
      looked up. -/
  | super {r cls c p : Ref} {f : Method V σ} {args args' : List (Option V)} {s s' : σ}
    {k : Option V → σ → Option V × σ} {o : Outcome V σ} {es : List (Event V)} :
    Finds h (·.methods m) r (some (cls, f)) → f args s = .super args' s' k →
    Finds h (·.super) inst (some (c, p)) → Call h inst m p args' s' o es →
    Call h inst m r args s (finish k (discard o))
      (.enter cls inst :: (es ++ returned (discard o)))

/-! ## What a call is to do -/

/-- A class and its parents, up to `Object`. -/
def ancestors (h : Heap V σ) (r : Ref) : List Ref :=
  r :: match h[r]?.bind Table.metatable with
  | some p => if p < r then ancestors h p else []
  | none => []

/-- The definitions of a method in a class and its parents. -/
def definitions (h : Heap V σ) (m : MethodName) (r : Ref) : List (Ref × Method V σ) :=
  (ancestors h r).filterMap fun c => (h[c]?.bind (·.methods m)).map (c, ·)

/-- The first definition is called, and `super` calls the next one. -/
def intended (inst : Ref) : List (Ref × Method V σ) → List (Option V) → σ →
    Outcome V σ × List (Event V)
  | [], _, _ => (.error, [])
  | (cls, f) :: fs, args, s =>
    match f args s with
    | .ret v s' => (.ok v s', [.enter cls inst])
    | .super args' s' k =>
      let (o, es) := intended inst fs args' s'
      (finish k o, .enter cls inst :: (es ++ returned o))

/-- An instance of a class, made by `new`. -/
structure IsInstance (h : Heap V σ) (inst cls : Ref) : Prop where
  isClass : IsClass h cls
  made : ∃ t, h[inst]? = some t ∧ t.metatable = some cls ∧ t.super = none ∧ ∀ m, t.methods m = none

/-- A call on an instance of a class **inherits**: it ends as it is to, having entered the
    definitions in order, each with what it is to return. -/
def Inherits (h : Heap V σ) (inst cls : Ref) (m : MethodName) (args : List (Option V)) (s : σ) :
    Prop :=
  Call h inst m inst args s (intended inst (definitions h m cls) args s).1
    (intended inst (definitions h m cls) args s).2

/-- `super` is not called, or it is called by the class itself, and the next definition
    neither calls it nor returns a value. -/
def Shallow (cls : Ref) (args : List (Option V)) (s : σ) : List (Ref × Method V σ) → Prop
  | [] => True
  | (c, f) :: fs =>
    match f args s with
    | .ret _ _ => True
    | .super args' s' _ =>
      c = cls ∧ ∀ d ∈ fs.head?, ∃ s'', d.2 args' s' = .ret none s''

variable {h : Heap V σ} {r self cls inst : Ref} {t : Table V σ} {m : MethodName}

/-! ## The heaps -/

/-- The tables after `construct`. -/
theorem getElem?_construct (hself : self < h.length) (isInheritMode : Bool) :
    (construct h self isInheritMode).1[r]? =
      if r = h.length then
        some ⟨fun _ => none, if isInheritMode then some self else none, none, some self⟩
      else h[r]?.map fun t => if self = r then { t with index := some self } else t := by
  by_cases hr : r = h.length
  · subst hr
    have hne : self ≠ h.length := Nat.ne_of_lt hself
    cases isInheritMode <;> simp [construct, initSuper, hne]
  · have hne : h.length ≠ r := fun heq => hr heq.symm
    have hget : (h ++ [⟨fun _ => none, none, none, some self⟩])[r]? = h[r]? := by
      rcases Nat.lt_or_gt_of_ne hr with hlt | hgt
      · exact List.getElem?_append_left hlt
      · rw [List.getElem?_eq_none (by simp; omega), List.getElem?_eq_none (Nat.le_of_lt hgt)]
    cases isInheritMode <;>
      simp [construct, initSuper, List.getElem?_modify, hne, hr, hget]

theorem getElem?_define (f : Method V σ) : (define h cls m f)[r]? = h[r]?.map fun t =>
    if cls = r then { t with methods := fun n => if n = m then some f else t.methods n } else t := by
  rw [define, List.getElem?_modify]
  rfl

/-- What holds of the tables: all but `Object` inherit from a class made before them. -/
structure Inv (h : Heap V σ) : Prop where
  object : ∃ t, h[0]? = some t ∧ t.metatable = none ∧ t.super = none
  other : ∀ r t, h[r]? = some t → r ≠ 0 → ∃ p tp, t.metatable = some p ∧ p < r ∧
    h[p]? = some tp ∧ tp.index = some p ∧ IsClass h p ∧ (t.super = none ∨ t.super = some p)

theorem Inv.lt_length (hi : Inv h) (hr : IsClass h r) : r < h.length := by
  rcases hr with rfl | ⟨t, ht, -⟩
  · obtain ⟨t, ht, -⟩ := hi.object
    exact (List.getElem?_eq_some_iff.1 ht).1
  · exact (List.getElem?_eq_some_iff.1 ht).1

theorem inv_object : Inv ([object] : Heap V σ) where
  object := ⟨object, rfl, rfl, rfl⟩
  other r t ht hr := by
    obtain ⟨r, rfl⟩ := Nat.exists_eq_succ_of_ne_zero hr
    cases ht

/-- The tables stay, with their metatables and what `super` knows. A table that had no `__index`
    may have got itself for it. -/
def Keeps (h h' : Heap V σ) : Prop :=
  ∀ (r : Ref) (t : Table V σ), h[r]? = some t → ∃ t' : Table V σ, h'[r]? = some t' ∧
    t'.metatable = t.metatable ∧ t'.super = t.super ∧ (t'.index = t.index ∨ t'.index = some r)

theorem IsClass.keeps {h' : Heap V σ} (hr : IsClass h r) (hk : Keeps h h') : IsClass h' r := by
  rcases hr with rfl | ⟨t, ht, hsuper⟩
  · exact .inl rfl
  · obtain ⟨t', ht', -, hsuper', -⟩ := hk r t ht
    exact .inr ⟨t', ht', hsuper' ▸ hsuper⟩

/-- What the invariant says of a table that was there is kept. -/
theorem Inv.keeps {h' : Heap V σ} (hi : Inv h) (hk : Keeps h h')
    (hnew : ∀ (r : Ref) (t : Table V σ), h'[r]? = some t → h[r]? = none → r ≠ 0 →
      ∃ p tp, t.metatable = some p ∧ p < r ∧ h'[p]? = some tp ∧ tp.index = some p ∧
        IsClass h' p ∧ (t.super = none ∨ t.super = some p)) : Inv h' := by
  constructor
  · obtain ⟨t, ht, hmeta, hsuper⟩ := hi.object
    obtain ⟨t', ht', hmeta', hsuper', -⟩ := hk 0 t ht
    exact ⟨t', ht', hmeta'.trans hmeta, hsuper'.trans hsuper⟩
  · intro r t' ht' hr
    cases ht : h[r]? with
    | none => exact hnew r t' ht' ht hr
    | some t =>
      obtain ⟨p, tp, hmeta, hp, htp, hindex, hclass, hsuper⟩ := hi.other r t ht hr
      obtain ⟨_, h₁, hmeta', hsuper', -⟩ := hk r t ht
      obtain rfl := Option.some.inj (ht'.symm.trans h₁)
      obtain ⟨tp', htp', -, -, hindex'⟩ := hk p tp htp
      refine ⟨p, tp', hmeta'.trans hmeta, hp, htp', ?_, hclass.keeps hk, hsuper' ▸ hsuper⟩
      exact hindex'.elim (·.trans hindex) id

theorem keeps_construct {b : Bool} (hself : self < h.length) : Keeps h (construct h self b).1 := by
  intro r t ht
  have hne : r ≠ h.length := Nat.ne_of_lt (List.getElem?_eq_some_iff.1 ht).1
  refine ⟨_, by rw [getElem?_construct hself, if_neg hne, ht]; rfl, ?_⟩
  split_ifs with heq
  · exact ⟨rfl, rfl, .inr (congrArg some heq)⟩
  · exact ⟨rfl, rfl, .inl rfl⟩

theorem Inv.construct {b : Bool} (hi : Inv h) (hself : IsClass h self) :
    Inv (construct h self b).1 := by
  have hlt := hi.lt_length hself
  have hk : Keeps h (Object.construct h self b).1 := keeps_construct hlt
  refine hi.keeps hk fun r t ht hnone _ => ?_
  -- The new table is the last one, and `self` has got its `__index`.
  obtain rfl : r = h.length := by
    by_contra hne
    rw [getElem?_construct hlt, if_neg hne, hnone] at ht
    cases ht
  rw [getElem?_construct hlt, if_pos rfl] at ht
  obtain rfl := Option.some.inj ht
  obtain ⟨ts, hts⟩ : ∃ ts, h[self]? = some ts := ⟨_, List.getElem?_eq_getElem hlt⟩
  have hts' : (Object.construct h self b).1[self]? = some { ts with index := some self } := by
    rw [getElem?_construct hlt, if_neg (Nat.ne_of_lt hlt), hts, Option.map_some, if_pos rfl]
  refine ⟨self, _, rfl, hlt, hts', rfl, hself.keeps hk, ?_⟩
  cases b
  · exact .inl rfl
  · exact .inr rfl

theorem Inv.define {f : Method V σ} (hi : Inv h) : Inv (define h cls m f) := by
  refine hi.keeps (fun r t ht => ?_) fun r t ht hnone _ => ?_
  · refine ⟨_, by rw [getElem?_define, ht]; rfl, ?_⟩
    split_ifs <;> exact ⟨rfl, rfl, .inl rfl⟩
  · rw [getElem?_define, hnone] at ht
    cases ht

theorem Built.inv (hb : Built h) : Inv h := by
  induction hb with
  | object => exact inv_object
  | inherit _ hself ih | new _ hself ih => exact ih.construct hself
  | define _ _ ih => exact ih.define

/-! ## What is found -/

/-- A lookup has one result. -/
theorem Finds.unique {α : Type} {get : Table V σ → Option α} {v v' : Option (Ref × α)}
    (hv : Finds h get r v) (hv' : Finds h get r v') : v = v' := by
  induction hv generalizing v' with
  | raw ht ha =>
    cases hv' with
    | raw ht' ha' =>
      obtain rfl := Option.some.inj (ht.symm.trans ht')
      obtain rfl := Option.some.inj (ha.symm.trans ha')
      rfl
    | index ht' ha' | noIndex ht' ha' | noMetatable ht' ha' =>
      obtain rfl := Option.some.inj (ht.symm.trans ht')
      cases ha.symm.trans ha'
  | index ht ha hp htp hi _ ih =>
    cases hv' with
    | raw ht' ha' =>
      obtain rfl := Option.some.inj (ht.symm.trans ht')
      cases ha.symm.trans ha'
    | index ht' ha' hp' htp' hi' hv' =>
      obtain rfl := Option.some.inj (ht.symm.trans ht')
      obtain rfl := Option.some.inj (hp.symm.trans hp')
      obtain rfl := Option.some.inj (htp.symm.trans htp')
      obtain rfl := Option.some.inj (hi.symm.trans hi')
      exact ih hv'
    | noIndex ht' ha' hp' htp' hi' =>
      obtain rfl := Option.some.inj (ht.symm.trans ht')
      obtain rfl := Option.some.inj (hp.symm.trans hp')
      obtain rfl := Option.some.inj (htp.symm.trans htp')
      cases hi.symm.trans hi'
    | noMetatable ht' ha' hp' =>
      obtain rfl := Option.some.inj (ht.symm.trans ht')
      cases hp.symm.trans hp'
  | noIndex ht ha hp htp hi =>
    cases hv' with
    | raw ht' ha' =>
      obtain rfl := Option.some.inj (ht.symm.trans ht')
      cases ha.symm.trans ha'
    | index ht' ha' hp' htp' hi' hv' =>
      obtain rfl := Option.some.inj (ht.symm.trans ht')
      obtain rfl := Option.some.inj (hp.symm.trans hp')
      obtain rfl := Option.some.inj (htp.symm.trans htp')
      cases hi.symm.trans hi'
    | noIndex | noMetatable => rfl
  | noMetatable ht ha hp =>
    cases hv' with
    | raw ht' ha' =>
      obtain rfl := Option.some.inj (ht.symm.trans ht')
      cases ha.symm.trans ha'
    | index ht' ha' hp' =>
      obtain rfl := Option.some.inj (ht.symm.trans ht')
      cases hp.symm.trans hp'
    | noIndex | noMetatable => rfl

theorem ancestors_object (hi : Inv h) : ancestors h 0 = [0] := by
  obtain ⟨t, ht, hmeta, -⟩ := hi.object
  rw [ancestors, ht, Option.bind_some, hmeta]

theorem ancestors_of_metatable {p : Ref} (ht : h[r]? = some t) (hmeta : t.metatable = some p)
    (hp : p < r) : ancestors h r = r :: ancestors h p := by
  rw [ancestors, ht, Option.bind_some, hmeta]
  exact congrArg _ (if_pos hp)

/-- The definition in the class itself, and the ones of its parents. -/
theorem definitions_of_metatable {p : Ref} (ht : h[r]? = some t) (hmeta : t.metatable = some p)
    (hp : p < r) : definitions h m r =
      ((t.methods m).map (r, ·)).toList ++ definitions h m p := by
  rw [definitions, ancestors_of_metatable ht hmeta hp, List.filterMap_cons, ht, Option.bind_some]
  cases t.methods m <;> rfl

/-- A class defines a method at most once, and its parents are other classes. -/
theorem definitions_le (r : Ref) : ∀ d ∈ definitions h m r, d.1 ≤ r := by
  have hle : ∀ c ∈ ancestors h r, c ≤ r := by
    induction r using Nat.strongRecOn with
    | ind r ih =>
      intro c hc
      rw [ancestors, List.mem_cons] at hc
      rcases hc with rfl | hc
      · exact Nat.le_refl _
      · split at hc
        · next p _ =>
          split_ifs at hc with hp
          · exact Nat.le_trans (ih p hp c hc) (Nat.le_of_lt hp)
          · cases hc
        · cases hc
  intro d hd
  obtain ⟨c, hc, hd⟩ := List.mem_filterMap.1 hd
  obtain ⟨f, -, rfl⟩ := Option.map_eq_some_iff.1 hd
  exact hle c hc

/-- A method that is looked up in a class is the first definition. -/
theorem Inv.finds_method (hi : Inv h) (hr : IsClass h r) (m : MethodName) :
    Finds h (·.methods m) r (definitions h m r).head? := by
  induction r using Nat.strongRecOn with
  | ind r ih =>
    by_cases hr0 : r = 0
    · subst hr0
      obtain ⟨t, ht, hmeta, -⟩ := hi.object
      rw [definitions, ancestors_object hi, List.filterMap_cons, ht, Option.bind_some]
      cases hm : t.methods m with
      | none => exact .noMetatable ht hm hmeta
      | some f => exact .raw ht hm
    · obtain ⟨t, ht⟩ : ∃ t, h[r]? = some t := ⟨_, List.getElem?_eq_getElem (hi.lt_length hr)⟩
      obtain ⟨p, tp, hmeta, hp, htp, hindex, hclass, -⟩ := hi.other r t ht hr0
      rw [definitions_of_metatable ht hmeta hp]
      cases hm : t.methods m with
      | none => exact .index ht hm hmeta htp hindex (ih p hp hclass)
      | some f => exact .raw ht hm

/-- The `super` of a class other than `Object` knows the parent of the class. -/
theorem Inv.super_eq (hi : Inv h) (hr : IsClass h r) (hr0 : r ≠ 0) : ∃ t p, h[r]? = some t ∧
    t.super = some p ∧ t.metatable = some p ∧ p < r ∧ IsClass h p := by
  obtain ⟨t, ht, hsuper⟩ := hr.resolve_left hr0
  obtain ⟨p, tp, hmeta, hp, -, -, hclass, hnone | hsome⟩ := hi.other r t ht hr0
  · rw [hnone] at hsuper
    cases hsuper
  · exact ⟨t, p, ht, hsome, hmeta, hp, hclass⟩

/-- What is looked up in an instance, and is not in it, is looked up in its class. -/
theorem IsInstance.finds {α : Type} {get : Table V σ → Option α} {v : Option (Ref × α)}
    (hinst : IsInstance h inst cls) (hi : Inv h) (hget : ∀ t, h[inst]? = some t → get t = none)
    (hv : Finds h get cls v) : Finds h get inst v := by
  obtain ⟨t, ht, hmeta, -, -⟩ := hinst.made
  have hne : inst ≠ 0 := by
    rintro rfl
    obtain ⟨t', ht', hmeta', -⟩ := hi.object
    obtain rfl := Option.some.inj (ht.symm.trans ht')
    cases hmeta.symm.trans hmeta'
  obtain ⟨p, tp, hmeta', -, htp, hindex, -⟩ := hi.other inst t ht hne
  obtain rfl := Option.some.inj (hmeta.symm.trans hmeta')
  exact .index ht (hget t ht) hmeta htp hindex hv

theorem IsInstance.finds_method (hinst : IsInstance h inst cls) (hi : Inv h) (m : MethodName) :
    Finds h (·.methods m) inst (definitions h m cls).head? := by
  refine hinst.finds hi (fun t ht => ?_) (hi.finds_method hinst.isClass m)
  obtain ⟨t', ht', -, -, hmethods⟩ := hinst.made
  obtain rfl := Option.some.inj (ht.symm.trans ht')
  exact hmethods m

theorem IsInstance.super_eq_none (hinst : IsInstance h inst cls) (ht : h[inst]? = some t) :
    t.super = none := by
  obtain ⟨t', ht', -, hsuper, -⟩ := hinst.made
  obtain rfl := Option.some.inj (ht.symm.trans ht')
  exact hsuper

/-- The `super` an instance finds is the one of its class, if this is not `Object`. -/
theorem IsInstance.finds_super (hinst : IsInstance h inst cls) (hi : Inv h) (hcls : cls ≠ 0)
    (m : MethodName) : ∃ (t : Table V σ) (p : Ref), Finds h (·.super) inst (some (cls, p)) ∧
      IsClass h p ∧ p < cls ∧
      definitions h m cls = ((t.methods m).map (cls, ·)).toList ++ definitions h m p := by
  obtain ⟨t, p, ht, hsuper, hmeta, hp, hclass⟩ := hi.super_eq hinst.isClass hcls
  exact ⟨t, p, hinst.finds hi (fun _ ht => hinst.super_eq_none ht) (.raw ht hsuper), hclass, hp,
    definitions_of_metatable ht hmeta hp⟩

/-- An instance of `Object` itself finds no `super`. -/
theorem IsInstance.finds_no_super (hinst : IsInstance h inst 0) (hi : Inv h) :
    Finds h (·.super) inst none := by
  obtain ⟨t, ht, hmeta, hsuper⟩ := hi.object
  exact hinst.finds hi (fun _ ht => hinst.super_eq_none ht) (.noMetatable ht hsuper hmeta)

/-! ## What is called -/

variable {c d p : Ref} {f g : Method V σ} {fs : List (Ref × Method V σ)}
  {args args' : List (Option V)} {s s' : σ} {k : Option V → σ → Option V × σ} {o : Outcome V σ}
  {es : List (Event V)} {v : Option V}

theorem intended_ret (hf : f args s = .ret v s') :
    intended inst ((c, f) :: fs) args s = (.ok v s', [.enter c inst]) := by
  rw [intended, hf]

theorem intended_super (hf : f args s = .super args' s' k) :
    intended inst ((c, f) :: fs) args s = (finish k (intended inst fs args' s').1,
      .enter c inst :: ((intended inst fs args' s').2 ++ returned (intended inst fs args' s').1)) := by
  rw [intended, hf]

/-- A call first enters the definition that is found. -/
theorem Call.head (hc : Call h inst m r args s o es) (hf : Finds h (·.methods m) r (some (c, f))) :
    ∃ es', es = .enter c inst :: es' := by
  cases hc with
  | undefined hf' => cases hf.unique hf'
  | ret hf' | noSuper hf' | super hf' =>
    obtain rfl := (Prod.mk.inj (Option.some.inj (hf.unique hf'))).1
    exact ⟨_, rfl⟩

theorem intended_head (inst : Ref) (d : Ref × Method V σ) (fs : List (Ref × Method V σ))
    (args : List (Option V)) (s : σ) :
    ∃ es', (intended inst (d :: fs) args s).2 = .enter d.1 inst :: es' := by
  obtain ⟨c, f⟩ := d
  cases hf : f args s with
  | ret v s' => exact ⟨_, congrArg Prod.snd (intended_ret hf)⟩
  | super args' s' k => exact ⟨_, congrArg Prod.snd (intended_super hf)⟩

/-- A call of `super` that ends. -/
theorem Call.of_super (hc : Call h inst m r args s o es)
    (hf : Finds h (·.methods m) r (some (c, f))) (hstep : f args s = .super args' s' k)
    (hsuper : Finds h (·.super) inst (some (d, p))) : ∃ o' es', Call h inst m p args' s' o' es' ∧
      o = finish k (discard o') ∧ es = .enter c inst :: (es' ++ returned (discard o')) := by
  cases hc with
  | undefined hf' => cases hf.unique hf'
  | ret hf' hstep' =>
    obtain ⟨rfl, rfl⟩ := Prod.mk.inj (Option.some.inj (hf.unique hf'))
    cases hstep.symm.trans hstep'
  | noSuper _ _ hsuper' => cases hsuper.unique hsuper'
  | super hf' hstep' hsuper' hc' =>
    obtain ⟨rfl, rfl⟩ := Prod.mk.inj (Option.some.inj (hf.unique hf'))
    obtain ⟨rfl, rfl⟩ := Prod.mk.inj (Option.some.inj (hsuper.unique hsuper'))
    obtain ⟨rfl, rfl, rfl⟩ := Body.super.inj (hstep.symm.trans hstep')
    exact ⟨_, _, hc', rfl, rfl⟩

theorem Call.of_ret (hc : Call h inst m r args s o es)
    (hf : Finds h (·.methods m) r (some (c, f))) (hstep : f args s = .ret v s') : o = .ok v s' := by
  cases hc with
  | undefined hf' => cases hf.unique hf'
  | ret hf' hstep' =>
    obtain ⟨rfl, rfl⟩ := Prod.mk.inj (Option.some.inj (hf.unique hf'))
    obtain ⟨rfl, rfl⟩ := Body.ret.inj (hstep.symm.trans hstep')
    rfl
  | noSuper hf' hstep' | super hf' hstep' =>
    obtain ⟨rfl, rfl⟩ := Prod.mk.inj (Option.some.inj (hf.unique hf'))
    cases hstep.symm.trans hstep'

/-- Where `super` leads to the class of the caller again, the definitions are not entered in
    order. -/
theorem Call.trace_ne (hc : Call h inst m r args s o es)
    (hf : Finds h (·.methods m) r (some (c, f))) (hstep : f args s = .super args' s' k)
    (hsuper : Finds h (·.super) inst (some (d, p))) (hp : Finds h (·.methods m) p (some (c, g)))
    (hfs : ∀ d ∈ fs, d.1 ≠ c) : es ≠ (intended inst ((c, f) :: fs) args s).2 := by
  obtain ⟨o', es', hc', -, rfl⟩ := hc.of_super hf hstep hsuper
  obtain ⟨es₁, rfl⟩ := hc'.head hp
  rw [intended_super hstep]
  intro heq
  have htail := (List.cons.inj heq).2
  cases fs with
  | nil => cases htail
  | cons d fs =>
    obtain ⟨es₂, hes₂⟩ := intended_head inst d fs args' s'
    rw [hes₂] at htail
    have hcls := (Event.enter.inj (List.cons.inj htail).1).1
    exact hfs d List.mem_cons_self hcls.symm

/-- Where `super` leads to a method that always calls it, no call ends. -/
theorem not_call (hp : Finds h (·.methods m) p (some (c, g)))
    (hsuper : Finds h (·.super) inst (some (d, p)))
    (hg : ∀ args s, ∃ args' s' k, g args s = .super args' s' k) :
    ¬ Call h inst m p args s o es := by
  intro hc
  generalize hr : p = r at hc
  induction hc with
  | undefined hf =>
    subst hr
    cases hp.unique hf
  | @ret r cls f args s s' v hf hret =>
    subst hr
    obtain ⟨rfl, rfl⟩ := Prod.mk.inj (Option.some.inj (hp.unique hf))
    obtain ⟨_, _, _, hstep⟩ := hg args s
    cases hstep.symm.trans hret
  | noSuper _ _ hnone => cases hsuper.unique hnone
  | super _ _ hsuper' _ ih => exact ih (Prod.mk.inj (Option.some.inj (hsuper.unique hsuper'))).2

/-- What is left of two ways to return is the same only if they return alike. -/
theorem append_returned {o o' : Outcome V σ} {es es' : List (Event V)}
    (hout : finish k o = finish k o') (hes : es ++ returned o = es' ++ returned o') :
    es = es' ∧ returned o = returned o' := by
  cases o with
  | error =>
    cases o' with
    | error => exact ⟨List.append_cancel_right hes, rfl⟩
    | ok v s => cases hout
  | ok v s =>
    cases o' with
    | error => cases hout
    | ok v' s' => exact List.append_inj' hes rfl

/-- The next definition is called as intended only if it neither calls `super` nor returns a
    value. -/
theorem ret_of_call (hc : Call h inst m p args s o es)
    (hp : Finds h (·.methods m) p (some (c, g))) (hsuper : Finds h (·.super) inst (some (d, p)))
    (hfs : ∀ d ∈ fs, d.1 ≠ c)
    (hout : finish k (discard o) = finish k (intended inst ((c, g) :: fs) args s).1)
    (hes : es ++ returned (discard o) = (intended inst ((c, g) :: fs) args s).2 ++
      returned (intended inst ((c, g) :: fs) args s).1) : ∃ s', g args s = .ret none s' := by
  obtain ⟨htrace, hreturned⟩ := append_returned hout hes
  cases hstep : g args s with
  | super args' s' k => exact absurd htrace (hc.trace_ne hp hstep hsuper hp hfs)
  | ret v s' =>
    rw [hc.of_ret hp hstep, intended_ret hstep] at hreturned
    obtain rfl := Event.returned.inj (List.cons.inj hreturned).1
    exact ⟨s', rfl⟩

/-- The classes of the definitions above the first one are other ones. -/
theorem ne_of_mem_definitions (hi : Inv h) (hr : IsClass h r)
    (hdefs : definitions h m r = (c, f) :: fs) : ∀ d ∈ fs, d.1 ≠ c := by
  induction r using Nat.strongRecOn with
  | ind r ih =>
    by_cases hr0 : r = 0
    · subst hr0
      have hlength : (definitions h m 0).length ≤ 1 := by
        rw [definitions, ancestors_object hi]
        exact List.length_filterMap_le _ _
      rw [hdefs, List.length_cons] at hlength
      have hnil : fs = [] := List.length_eq_zero_iff.1 (by omega)
      rw [hnil]
      exact fun _ hd => absurd hd List.not_mem_nil
    · obtain ⟨t, p, ht, -, hmeta, hp, hclass⟩ := hi.super_eq hr hr0
      rw [definitions_of_metatable ht hmeta hp] at hdefs
      cases hm : t.methods m with
      | none =>
        rw [hm] at hdefs
        exact ih p hp hclass hdefs
      | some g =>
        rw [hm] at hdefs
        obtain ⟨hhead, rfl⟩ := List.cons.inj hdefs
        obtain rfl := (Prod.mk.inj hhead).1
        exact fun d hd => Nat.ne_of_lt (Nat.lt_of_le_of_lt (definitions_le p d hd) hp)

theorem shallow_ret (hf : f args s = .ret v s') : Shallow cls args s ((c, f) :: fs) := by
  rw [Shallow, hf]
  trivial

theorem shallow_super (hf : f args s = .super args' s' k) : Shallow cls args s ((c, f) :: fs) ↔
    c = cls ∧ ∀ d ∈ fs.head?, ∃ s'', d.2 args' s' = .ret none s'' := by
  rw [Shallow, hf]

/-- The class of the instance defines the method, and calls the next definition. -/
theorem call_super_iff (hf : Finds h (·.methods m) inst (some (c, f)))
    (hstep : f args s = .super args' s' k) (hsuper : Finds h (·.super) inst (some (d, p)))
    (hp : Finds h (·.methods m) p fs.head?)
    (hfs : ∀ c₁ g fs', fs = (c₁, g) :: fs' → ∀ d ∈ fs', d.1 ≠ c₁) :
    Call h inst m inst args s (intended inst ((c, f) :: fs) args s).1
      (intended inst ((c, f) :: fs) args s).2 ↔
      ∀ d ∈ fs.head?, ∃ s'', d.2 args' s' = .ret none s'' := by
  rw [intended_super hstep]
  cases fs with
  | nil =>
    refine iff_of_true ?_ fun d hd => by cases hd
    exact .super hf hstep hsuper (.undefined hp)
  | cons e fs =>
    obtain ⟨c₁, g⟩ := e
    constructor
    · intro hc e he
      obtain rfl := Option.some.inj he
      obtain ⟨o, es, hc', hout, hes⟩ := hc.of_super hf hstep hsuper
      exact ret_of_call hc' hp hsuper (hfs c₁ g fs rfl) hout.symm (List.cons.inj hes).2.symm
    · intro hret
      obtain ⟨s'', hg⟩ := hret _ rfl
      rw [intended_ret hg]
      exact .super hf hstep hsuper (.ret hp hg)

/-- A call on an instance **inherits** if and only if the use of `super` is shallow. -/
theorem inherits_iff (hb : Built h) (hinst : IsInstance h inst cls) (m : MethodName)
    (args : List (Option V)) (s : σ) :
    Inherits h inst cls m args s ↔ Shallow cls args s (definitions h m cls) := by
  have hi := hb.inv
  have hfind := hinst.finds_method hi m
  rw [Inherits]
  cases hdefs : definitions h m cls with
  | nil =>
    rw [hdefs] at hfind
    exact iff_of_true (.undefined hfind) trivial
  | cons e fs =>
    obtain ⟨c, f⟩ := e
    rw [hdefs] at hfind
    have hne := ne_of_mem_definitions hi hinst.isClass hdefs
    cases hstep : f args s with
    | ret v s' =>
      rw [intended_ret hstep]
      exact iff_of_true (.ret hfind hstep) (shallow_ret hstep)
    | super args' s' k =>
      rw [shallow_super hstep]
      by_cases hcls : cls = 0
      · subst hcls
        -- `Object` itself has no parent, and no `super`.
        have hc : c = 0 := Nat.le_zero.1 (definitions_le 0 (c, f) (hdefs ▸ List.mem_cons_self))
        have hnil : fs = [] := List.eq_nil_iff_forall_not_mem.2 fun d hd => hne d hd
          ((Nat.le_zero.1 (definitions_le 0 d (hdefs ▸ List.mem_cons_of_mem _ hd))).trans hc.symm)
        subst hnil
        rw [intended_super hstep]
        exact iff_of_true (.noSuper hfind hstep (hinst.finds_no_super hi))
          ⟨hc, fun d hd => by cases hd⟩
      · obtain ⟨t, p, hsuper, hclass, hlt, hsplit⟩ := hinst.finds_super hi hcls m
        have hp := hi.finds_method hclass m
        rw [hdefs] at hsplit
        cases hm : t.methods m with
        | none =>
          -- The parent is looked up for the definition that is running.
          rw [hm] at hsplit
          have hsame : (c, f) :: fs = definitions h m p := hsplit
          rw [← hsame] at hp
          have hle := definitions_le p (c, f) (hsame ▸ List.mem_cons_self)
          refine iff_of_false (fun hc => hc.trace_ne hfind hstep hsuper hp hne rfl) fun hs => ?_
          exact Nat.ne_of_lt (Nat.lt_of_le_of_lt hle hlt) hs.1
        | some g =>
          rw [hm] at hsplit
          obtain ⟨hhead, htail⟩ := List.cons.inj hsplit
          obtain rfl := (Prod.mk.inj hhead).1
          have htail' : fs = definitions h m p := htail
          rw [and_iff_right rfl]
          rw [← htail'] at hp
          refine call_super_iff hfind hstep hsuper hp fun c₁ g' fs' hfs' => ?_
          exact ne_of_mem_definitions hi hclass (htail'.symm.trans hfs')

/-- A method that calls the one of the parent. -/
def callsSuper : Method Unit Unit := fun args s => .super args s fun v s => (v, s)

/-- A class whose `init` calls the one of `Object`. -/
def derived : Heap Unit Unit := define (construct [object] 0 true).1 1 initName callsSuper

theorem built_derived : Built derived := .define (.inherit .object (.inl rfl)) (.inr ⟨_, rfl, rfl⟩)

/-- A class derived from that one, whose `init` does the same. -/
def twiceDerived : Heap Unit Unit := define (construct derived 1 true).1 2 initName callsSuper

theorem built_twiceDerived : Built twiceDerived :=
  .define (.inherit built_derived (.inr ⟨_, rfl, rfl⟩)) (.inr ⟨_, rfl, rfl⟩)

/-- An instance of the first class is initialized. -/
theorem inherits_derived : Inherits (construct derived 1 false).1 2 1 initName [] () := by
  have hinst : IsInstance (construct derived 1 false).1 2 1 :=
    ⟨.inr ⟨_, rfl, rfl⟩, _, rfl, rfl, rfl, fun _ => rfl⟩
  have hbuilt : Built (construct derived 1 false).1 := .new built_derived (.inr ⟨_, rfl, rfl⟩)
  have hdefs : definitions (construct derived 1 false).1 initName 1 =
      [(1, callsSuper), (0, fun _ s => .ret none s)] := by
    rw [definitions_of_metatable rfl rfl (by decide), definitions, ancestors_object hbuilt.inv]
    rfl
  refine (inherits_iff hbuilt hinst initName [] ()).2 ?_
  rw [hdefs]
  refine (shallow_super rfl).2 ⟨rfl, fun d hd => ?_⟩
  obtain rfl := Option.some.inj hd
  exact ⟨(), rfl⟩

/-- An instance of the second class is not: the `init` of the first one is called for ever. -/
theorem not_inherits : ¬ ∀ (V σ : Type) (h : Heap V σ) inst cls, Built h → IsInstance h inst cls →
    ∀ m args s, Inherits h inst cls m args s := by
  intro hall
  have hinst : IsInstance (construct twiceDerived 2 false).1 3 2 :=
    ⟨.inr ⟨_, rfl, rfl⟩, _, rfl, rfl, rfl, fun _ => rfl⟩
  have hbuilt : Built (construct twiceDerived 2 false).1 :=
    .new built_twiceDerived (.inr ⟨_, rfl, rfl⟩)
  have hinit : Finds (construct twiceDerived 2 false).1 (·.methods initName) 3
      (some (2, callsSuper)) := .index rfl rfl rfl rfl rfl (.raw rfl rfl)
  have hsuper : Finds (construct twiceDerived 2 false).1 (·.super) 3 (some (2, 1)) :=
    .index rfl rfl rfl rfl rfl (.raw rfl rfl)
  have hcall : Call _ 3 initName 3 [] () _ _ := hall Unit Unit _ 3 2 hbuilt hinst initName [] ()
  obtain ⟨o, es, hparent, -, -⟩ := hcall.of_super hinit rfl hsuper
  exact not_call (.raw rfl rfl) hsuper (fun args s => ⟨args, s, _, rfl⟩) hparent

end Object

end Mistress
