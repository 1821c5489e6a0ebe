import Mistress.Utils

/-!
# Resolving a host

`resolve_host` returns the address of a host: the host itself if it is taken for an
IPv4 address, and what the DNS says otherwise.

The Lua pattern it is compared with, `%d+.%d+.%d+.%d+`, is not anchored, and its dots
stand for any character, so that a host with four groups of digits anywhere is taken
for an address (`strMatch_ADDRESS_iff`). `recognised_iff` says for which hosts this
makes no difference.
-/

namespace Mistress

open LuaPattern

/-- The pattern `%d+.%d+.%d+.%d+`. -/
def ADDRESS : List Item :=
  [.plus .digit, .one .any, .plus .digit, .one .any, .plus .digit, .one .any, .plus .digit]

/-- What resolving a host does. -/
structure Resolution where
  /-- The names that are looked up. -/
  lookups : List LuaString
  /-- The address. -/
  result : Except LuaError LuaString

/-- `resolve_host`, where `toip` is `socket.dns.toip`: an address, or a message. -/
def resolveHost (toip : LuaString → Except LuaString LuaString) (host : LuaString) : Resolution :=
  if (strMatch ADDRESS host).isSome then ⟨[], .ok host⟩
  else ⟨[host], (toip host).mapError .message⟩

/-- A group of decimal digits. -/
def Digits (r : LuaString) : Prop := r ≠ [] ∧ ∀ x ∈ r, x.isDigit

/-- Four groups of digits, each separated from the next one by one character. -/
def fourGroups (a b c d : LuaString) (x y z : Char) : LuaString :=
  a ++ x :: (b ++ y :: (c ++ z :: d))

/-- A dotted-quad literal. -/
def DottedQuad (host : LuaString) : Prop :=
  ∃ a b c d, (Digits a ∧ Digits b ∧ Digits c ∧ Digits d) ∧ host = fourGroups a b c d '.' '.' '.'

/-- Somewhere in the host there are four groups of digits, each separated from the next
    one by any character. -/
def HasFourGroups (host : LuaString) : Prop :=
  ∃ a b c d x y z, (Digits a ∧ Digits b ∧ Digits c ∧ Digits d) ∧ fourGroups a b c d x y z <:+: host

/-- A host is **recognised** if it is returned as it is when it is a literal, and only
    then, and looked up otherwise. -/
structure Recognised (toip : LuaString → Except LuaString LuaString) (host : LuaString) : Prop where
  literal : resolveHost toip host = ⟨[], .ok host⟩ ↔ DottedQuad host
  name : ¬ DottedQuad host → (resolveHost toip host).lookups = [host]

theorem DottedQuad.hasFourGroups {host : LuaString} (h : DottedQuad host) : HasFourGroups host := by
  obtain ⟨a, b, c, d, hdigits, rfl⟩ := h
  exact ⟨a, b, c, d, '.', '.', '.', hdigits, List.infix_rfl⟩

/-- What the pattern matches. -/
theorem strMatch_ADDRESS_iff {host : LuaString} :
    (strMatch ADDRESS host).isSome ↔ HasFourGroups host := by
  rw [strMatch_isSome_iff]
  constructor
  · rintro ⟨t, hsuffix, h⟩
    rw [ADDRESS, go_plus_isSome_iff] at h
    obtain ⟨a, t, rfl, ha, h⟩ := h
    obtain ⟨x, t, rfl, -, h⟩ := go_one_isSome_iff.1 h
    obtain ⟨b, t, rfl, hb, h⟩ := go_plus_isSome_iff.1 h
    obtain ⟨y, t, rfl, -, h⟩ := go_one_isSome_iff.1 h
    obtain ⟨c, t, rfl, hc, h⟩ := go_plus_isSome_iff.1 h
    obtain ⟨z, t, rfl, -, h⟩ := go_one_isSome_iff.1 h
    obtain ⟨d, t, rfl, hd, -⟩ := go_plus_isSome_iff.1 h
    refine ⟨a, b, c, d, x, y, z, ⟨ha, hb, hc, hd⟩, List.IsInfix.trans ?_ hsuffix.isInfix⟩
    exact ⟨[], t, by simp [fourGroups]⟩
  · rintro ⟨a, b, c, d, x, y, z, ⟨ha, hb, hc, hd⟩, pre, t, rfl⟩
    refine ⟨fourGroups a b c d x y z ++ t, ⟨pre, by simp⟩, ?_⟩
    simp only [fourGroups, List.append_assoc, List.cons_append]
    refine go_plus_isSome_iff.2 ⟨a, _, rfl, ha, go_one_isSome_iff.2 ⟨x, _, rfl, rfl, ?_⟩⟩
    refine go_plus_isSome_iff.2 ⟨b, _, rfl, hb, go_one_isSome_iff.2 ⟨y, _, rfl, rfl, ?_⟩⟩
    refine go_plus_isSome_iff.2 ⟨c, _, rfl, hc, go_one_isSome_iff.2 ⟨z, _, rfl, rfl, ?_⟩⟩
    exact go_plus_isSome_iff.2 ⟨d, t, rfl, hd, rfl⟩

theorem resolveHost_of_groups {toip : LuaString → Except LuaString LuaString} {host : LuaString}
    (h : HasFourGroups host) : resolveHost toip host = ⟨[], .ok host⟩ := by
  rw [resolveHost, if_pos (strMatch_ADDRESS_iff.2 h)]

theorem resolveHost_of_no_groups {toip : LuaString → Except LuaString LuaString} {host : LuaString}
    (h : ¬ HasFourGroups host) : resolveHost toip host = ⟨[host], (toip host).mapError .message⟩ := by
  rw [resolveHost, if_neg fun hm => h (strMatch_ADDRESS_iff.1 hm)]

/-- A host is **recognised** if and only if it has no four groups of digits, or is a
    literal as a whole. -/
theorem recognised_iff (toip : LuaString → Except LuaString LuaString) (host : LuaString) :
    Recognised toip host ↔ (HasFourGroups host → DottedQuad host) := by
  constructor
  · intro h hgroups
    exact h.literal.1 (resolveHost_of_groups hgroups)
  · intro h
    by_cases hgroups : HasFourGroups host
    · have hquad := h hgroups
      exact ⟨iff_of_true (resolveHost_of_groups hgroups) hquad, fun hnot => absurd hquad hnot⟩
    · have hquad : ¬ DottedQuad host := fun hq => hgroups hq.hasFourGroups
      have hlookup : resolveHost toip host = _ := resolveHost_of_no_groups hgroups
      refine ⟨iff_of_false (fun heq => ?_) hquad, fun _ => by rw [hlookup]⟩
      have hnames := congrArg Resolution.lookups (hlookup.symm.trans heq)
      exact List.cons_ne_nil _ _ hnames

/-- A host name with an address in it. -/
def cloudHost : LuaString := "ec2-54-12-33-44.example.com".toList

/-- It is taken for the address. -/
theorem cloudHost_not_recognised : ¬ ∀ toip host, Recognised toip host := by
  intro hall
  have hgroups : HasFourGroups cloudHost :=
    ⟨['5', '4'], ['1', '2'], ['3', '3'], ['4', '4'], '-', '-', '-',
      by simp [Digits, Char.isDigit], ['e', 'c', '2', '-'], ".example.com".toList, rfl⟩
  -- A dotted quad begins with a digit.
  obtain ⟨a, b, c, d, ⟨⟨hne, ha⟩, -⟩, heq⟩ :=
    (recognised_iff (fun _ => .ok []) cloudHost).1 (hall _ _) hgroups
  obtain ⟨x, a, rfl⟩ := List.exists_cons_of_ne_nil hne
  obtain ⟨rfl, -⟩ := List.cons.inj heq
  exact absurd (ha 'e' List.mem_cons_self) (by decide)

end Mistress
