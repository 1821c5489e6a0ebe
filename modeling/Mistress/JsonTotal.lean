import Mistress.Json

/-!
# Decoding JSON comes to an end

The scanners of `dkjson` call each other: `scanvalue` calls `scantable` for a table, and
`scantable` calls `scanvalue` for its elements, in a loop. Neither counts anything, so that they
come to an end has to be seen from the text: each call of `scanvalue` and each round of
`scantable` reads a byte at least (`ends_scan`). So `json.decode` comes to an end on every text,
well formed or not (`decode_total`).

`Ends` says of a scan that it comes to its end, with a value or an error, and how much of the
text is left. It is put together as the scan is, with `Ends.bind`.
-/

open LuaStack

namespace Mistress.Json

open HttpParser (byte bytes)

/-- The scan comes to its end, with less than `n` bytes left. -/
def Ends (x : Scan (Option Val × Bytes)) (n : ℕ) : Prop :=
  ∃ r, x.run = some r ∧ ∀ v rest, r = .ok (v, rest) → rest.length < n

namespace Ends

theorem throw (e : ℕ × String) (n : ℕ) : Ends (throw e) n := ⟨.error e, rfl, fun _ _ h => by cases h⟩

theorem pure {v : Option Val} {rest : Bytes} {n : ℕ} (h : rest.length < n) :
    Ends (pure (v, rest)) n := by
  refine ⟨.ok (v, rest), rfl, fun v' rest' heq => ?_⟩
  obtain ⟨-, rfl⟩ := Prod.mk.inj (Except.ok.inj heq)
  exact h

theorem mono {x : Scan (Option Val × Bytes)} {m n : ℕ} (hx : Ends x m) (h : m ≤ n) : Ends x n := by
  obtain ⟨r, hr, hlt⟩ := hx
  exact ⟨r, hr, fun v rest heq => (hlt v rest heq).trans_le h⟩

/-- A scan that goes on with what another one has left. -/
theorem bind {x : Scan (Option Val × Bytes)} {f : Option Val × Bytes → Scan (Option Val × Bytes)}
    {m n : ℕ} (hx : Ends x m) (hf : ∀ v rest, rest.length < m → Ends (f (v, rest)) n) :
    Ends (x >>= f) n := by
  obtain ⟨r, hr, hlt⟩ := hx
  cases r with
  | error e =>
    have hbind : (x >>= f).run = some (.error e) := by
      rw [ExceptT.run_bind, hr]
      rfl
    exact ⟨.error e, hbind, fun _ _ h => by cases h⟩
  | ok a =>
    obtain ⟨v, rest⟩ := a
    obtain ⟨r, hr', hlt'⟩ := hf v rest (hlt v rest rfl)
    have hbind : (x >>= f).run = some r := by
      rw [ExceptT.run_bind, hr]
      exact hr'
    exact ⟨r, hbind, hlt'⟩

end Ends

/-- White space and comments may be missing, -/
theorem length_scanwhite_le (s : Bytes) : (scanwhite s).length ≤ s.length := by
  induction hn : s.length using Nat.strong_induction_on generalizing s with
  | _ n ih =>
    subst hn
    cases s with
    | nil => rfl
    | cons ch s =>
      unfold scanwhite
      split
      · exact (ih s.length (by simp) s rfl).trans (by simp)
      · split
        · rename_i b c t
          split
          · refine (ih t.length ?_ t rfl).trans ?_
            · simp only [List.length_cons]
              omega
            · simp only [List.length_cons]
              omega
          · exact le_rfl
        · exact le_rfl

/-- but a string has a closing quote at least, -/
theorem length_scanstring_lt {s value rest : Bytes} {skip : ℕ}
    (h : scanstring skip s = some (value, rest)) : rest.length < s.length := by
  induction s generalizing skip value with
  | nil => cases skip <;> cases h
  | cons ch s ih =>
    cases skip with
    | succ skip => exact (ih h).trans (Nat.lt_succ_self _)
    | zero =>
      rw [scanstring] at h
      split_ifs at h
      · obtain ⟨-, rfl⟩ := Prod.mk.inj (Option.some.inj h)
        exact Nat.lt_succ_self _
      · obtain ⟨r, hr, heq⟩ := Option.map_eq_some_iff.1 h
        obtain ⟨-, rfl⟩ := Prod.mk.inj heq
        exact (ih hr).trans (Nat.lt_succ_self _)
      · obtain ⟨r, hr, heq⟩ := Option.map_eq_some_iff.1 h
        obtain ⟨-, rfl⟩ := Prod.mk.inj heq
        exact (ih hr).trans (Nat.lt_succ_self _)

theorem length_optional_le (p : UInt8 → Bool) (s : Bytes) : (optional p s).2.length ≤ s.length := by
  cases s with
  | nil => rfl
  | cons ch s =>
    rw [optional]
    split
    · exact Nat.le_succ _
    · exact le_rfl

theorem length_dropWhile_lt {p : UInt8 → Bool} {s : Bytes} (h : s.takeWhile p ≠ []) :
    (s.dropWhile p).length < s.length := by
  have hlen := congrArg List.length (List.takeWhile_append_dropWhile (p := p) (l := s))
  rw [List.length_append] at hlen
  have := List.length_pos_iff.2 h
  omega

/-- a number has a digit, -/
theorem length_scannumber_lt {s text rest : Bytes} (h : scannumber s = some (text, rest)) :
    rest.length < s.length := by
  unfold scannumber at h
  dsimp only at h
  split at h
  · cases h
  · rename_i hne
    obtain ⟨-, rfl⟩ := Prod.mk.inj (Option.some.inj h)
    have h₁ := length_optional_le (· = byte '-') s
    have h₂ := length_dropWhile_lt hne
    have h₃ := length_optional_le isE ((optional (· = byte '-') s).2.dropWhile isMantissa)
    have h₄ := length_optional_le isPlus
      (optional isE ((optional (· = byte '-') s).2.dropWhile isMantissa)).2
    have h₅ := List.length_dropWhile_le isDigit (optional isPlus
      (optional isE ((optional (· = byte '-') s).2.dropWhile isMantissa)).2).2
    omega

/-- and a name has a letter. -/
theorem length_scanname_lt {s text rest : Bytes} (h : scanname s = some (text, rest)) :
    rest.length < s.length := by
  unfold scanname at h
  split at h
  · cases h
  · rename_i ch s'
    split at h
    · rename_i halpha
      obtain ⟨-, rfl⟩ := Prod.mk.inj (Option.some.inj h)
      exact length_dropWhile_lt (by simp [halpha])
    · cases h

theorem length_comma_le (s : Bytes) : (comma s).length ≤ s.length := by
  cases s with
  | nil => rfl
  | cons ch s =>
    rw [comma]
    split
    · exact Nat.le_succ _
    · exact le_rfl

variable (round : ℚ → Number)

/-- A number or a name reads a byte, or is an error. -/
theorem ends_scanatom (str s : Bytes) : Ends (scanatom round str s) s.length := by
  unfold scanatom
  split
  · rename_i n rest heq
    obtain ⟨⟨text, rest'⟩, hscan, hmap⟩ := Option.bind_eq_some_iff.1 heq
    obtain ⟨n', -, hpair⟩ := Option.map_eq_some_iff.1 hmap
    obtain ⟨-, rfl⟩ := Prod.mk.inj hpair
    exact .pure (length_scannumber_lt hscan)
  · split
    · exact .throw _ _
    · rename_i name rest hname
      have hlt := length_scanname_lt hname
      split_ifs
      · exact .pure hlt
      · exact .pure hlt
      · exact .pure hlt
      · exact .throw _ _

/-- Each call reads a byte at least: so many calls are enough. -/
theorem ends_scan (str : Bytes) (fuel : ℕ) :
    (∀ rest : Bytes, 2 * rest.length + 1 ≤ fuel →
        Ends (scanvalue round str fuel rest) rest.length) ∧
      ∀ what startpos tbl n, ∀ rest : Bytes, 2 * rest.length + 2 ≤ fuel →
        Ends (scantable round str what startpos fuel tbl n rest) rest.length := by
  induction fuel with
  | zero => exact ⟨fun _ h => by omega, fun _ _ _ _ _ h => by omega⟩
  | succ fuel ih =>
    obtain ⟨ihvalue, ihtable⟩ := ih
    refine ⟨fun rest hfuel => ?_, fun what startpos tbl n rest hfuel => ?_⟩
    · have hwhite := length_scanwhite_le rest
      rw [scanvalue]
      cases hscan : scanwhite rest with
      | nil => exact .throw _ _
      | cons ch s =>
        rw [hscan, List.length_cons] at hwhite
        dsimp only
        split_ifs
        · exact (ihtable _ _ _ _ s (by omega)).mono (by omega)
        · exact (ihtable _ _ _ _ s (by omega)).mono (by omega)
        · split
          · rename_i value rest' hstring
            have := length_scanstring_lt hstring
            exact .pure (by omega)
          · exact .throw _ _
        · exact (ends_scanatom round str (ch :: s)).mono (by rw [List.length_cons]; omega)
    · have hwhite := length_scanwhite_le rest
      rw [scantable]
      cases hscan : scanwhite rest with
      | nil => exact .throw _ _
      | cons ch s =>
        rw [hscan] at hwhite
        dsimp only
        split
        · rw [List.length_cons] at hwhite
          exact .pure (by omega)
        · refine .bind (ihvalue (ch :: s) (by omega)) fun val1 rest₁ h₁ => ?_
          -- The loop goes on with less than there was.
          have hnext {tbl : Entries} {n : ℕ} {r t : Bytes} (hr : scanwhite r = t)
              (hlt : r.length < rest.length) :
              Ends (scantable round str what startpos fuel tbl n (comma t)) rest.length := by
            have hle := (length_comma_le t).trans (hr ▸ length_scanwhite_le r)
            exact (ihtable _ _ _ _ _ (by omega)).mono (by omega)
          dsimp only
          cases hscan₁ : scanwhite rest₁ with
          | nil => exact .throw _ _
          | cons c t =>
            have hwhite₁ := length_scanwhite_le rest₁
            rw [hscan₁, List.length_cons] at hwhite₁
            dsimp only
            split
            · cases val1 with
              | none => exact .throw _ _
              | some val1 =>
                have hwhite₂ := length_scanwhite_le t
                dsimp only
                cases hscan₂ : scanwhite t with
                | nil => exact .throw _ _
                | cons d u =>
                  rw [hscan₂] at hwhite₂
                  dsimp only
                  refine .bind (ihvalue (d :: u) (by omega)) fun val2 rest₂ h₂ => ?_
                  dsimp only
                  cases hscan₃ : scanwhite rest₂ with
                  | nil => exact .throw _ _
                  | cons e w => exact hnext hscan₃ (by omega)
            · exact hnext hscan₁ (by omega)

/-- `json.decode` comes to an end on every text: with a value, or with an error. -/
theorem decode_total (str : Bytes) : ∃ r, decode round str = ExceptT.mk (some r) := by
  obtain ⟨r, hr, -⟩ := (ends_scan round str (2 * str.length + 2)).1 str (by omega)
  have hscan : scanvalue round str (2 * str.length + 2) str = ExceptT.mk (some r) := hr
  rw [decode, hscan]
  cases r with
  | error e => exact ⟨.error e, rfl⟩
  | ok a => exact ⟨.ok (a.1, position str a.2), rfl⟩

end Mistress.Json
