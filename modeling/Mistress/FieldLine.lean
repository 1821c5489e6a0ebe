import Mistress.Framing
import Mistress.Resume
import Mistress.Scan
import Mathlib.Data.Bool.AllAny

/-!
# The lines of the headers

What `http_parser` makes of a line of the headers, byte by byte, and what the line says
(`Field.apply`).

* `Tracks`: the state of the parser says which of the names it looks for begin with what
  has been read of a name, and after the name which of them it is (`kind_of_tracks`);
* `Follows`: the same for a value that is compared with a text, in lower case and perhaps
  followed by spaces (`tells`);
* `decimal`: the number a content length is taken for.
-/

open LuaStack

namespace Mistress

namespace HttpParser

/-! ## The names -/

/-- The headers whose values the parser looks at. -/
inductive FieldKind
  | connection
  | contentLength
  | transferEncoding
  | upgrade
  | other
  deriving DecidableEq

/-- The kind of a header, by its name in lower case. -/
def fieldKind (name : Bytes) : FieldKind :=
  if name = CONNECTION ∨ name = PROXY_CONNECTION then .connection
  else if name = CONTENT_LENGTH then .contentLength
  else if name = TRANSFER_ENCODING then .transferEncoding
  else if name = UPGRADE then .upgrade
  else .other

/-- The kind of a header, by the state of the parser after its name. -/
def HeaderState.kind : HeaderState → FieldKind
  | .connection => .connection
  | .contentLength => .contentLength
  | .transferEncoding => .transferEncoding
  | .upgrade => .upgrade
  | _ => .other

/-- The names that are looked for. -/
def names : List Bytes := [CONNECTION, PROXY_CONNECTION, CONTENT_LENGTH, TRANSFER_ENCODING, UPGRADE]

/-- The beginning `p` of a name is that of the name `text`, which it may still turn out to be,
    and no other name begins with its first `n` bytes. -/
structure Begins (text : Bytes) (n index : Nat) (p : Bytes) : Prop where
  isPrefix : p <+: text
  lt : p.length < text.length
  le : n ≤ p.length
  index : index + 1 = p.length

/-- What the beginning `p` of a name says in the state `s`. -/
def Tracks (p : Bytes) (index : Nat) : HeaderState → Prop
  | .C => p = bytes "c" ∧ index = 0
  | .CO => p = bytes "co" ∧ index = 1
  | .CON => p = bytes "con" ∧ index = 2
  | .matchingConnection => Begins CONNECTION 4 index p
  | .matchingProxyConnection => Begins PROXY_CONNECTION 1 index p
  | .matchingContentLength => Begins CONTENT_LENGTH 4 index p
  | .matchingTransferEncoding => Begins TRANSFER_ENCODING 1 index p
  | .matchingUpgrade => Begins UPGRADE 1 index p
  | .connection => p = CONNECTION ∨ p = PROXY_CONNECTION
  | .contentLength => p = CONTENT_LENGTH
  | .transferEncoding => p = TRANSFER_ENCODING
  | .upgrade => p = UPGRADE
  | .general => ∀ name ∈ names, ¬p <+: name
  | _ => False

/-- Two texts that begin alike. -/
theorem take_eq_take {p s t : Bytes} {n : Nat} (hn : n ≤ p.length) (hs : p <+: s) (ht : p <+: t) :
    s.take n = t.take n := by
  rw [← List.take_append_drop n p] at hs ht
  have hlen : (p.take n).length = n := List.length_take_of_le hn
  have hs' := List.prefix_iff_eq_take.1 ((List.prefix_append _ _).trans hs)
  have ht' := List.prefix_iff_eq_take.1 ((List.prefix_append _ _).trans ht)
  rw [hlen] at hs' ht'
  exact hs'.symm.trans ht'

theorem append_prefix_iff {p t : Bytes} {c : UInt8} (hp : p <+: t) (hlt : p.length < t.length) :
    p ++ [c] <+: t ↔ c = t.getD p.length 0 := by
  obtain ⟨q, rfl⟩ := hp
  cases q with
  | nil => simp at hlt
  | cons d q =>
    rw [List.prefix_append_right_inj, List.cons_prefix_cons]
    simp

/-- A byte of a name that is compared with `text`. -/
theorem Begins.matching {text : Bytes} {n : Nat} {p : Bytes} {parser : HttpParser}
    {matched : HeaderState}
    (h : Begins text n parser.index p)
    (hn : ∀ name ∈ names, name.take n = text.take n → name = text) (c : UInt8)
    (hmatched : p ++ [c] = text → Tracks (p ++ [c]) (parser.index + 1) matched)
    (hmatching : Begins text n (parser.index + 1) (p ++ [c]) →
      Tracks (p ++ [c]) (parser.index + 1) parser.headerState) :
    Tracks (p ++ [c]) (Exec.matching parser text matched c).index
      (Exec.matching parser text matched c).headerState := by
  have hidx := h.index
  have hlt := h.lt
  have hnext : c ≠ text.getD (parser.index + 1) 0 ↔ ¬p ++ [c] <+: text := by
    rw [append_prefix_iff h.isPrefix h.lt, hidx]
  have hshort : ¬text.length < parser.index + 1 := by omega
  simp only [Exec.matching, hshort, false_or, hnext]
  split
  · rename_i hnot
    -- No other name begins with `p` either.
    intro name hname hpre
    have hp := (List.prefix_append p [c]).trans hpre
    rw [hn name hname (take_eq_take h.le hp h.isPrefix)] at hpre
    exact hnot hpre
  · rename_i hpre
    rw [not_not] at hpre
    split
    · refine hmatched (hpre.eq_of_length ?_)
      rw [List.length_append, List.length_singleton]
      omega
    · refine hmatching ⟨hpre, ?_, ?_, ?_⟩
      · rw [List.length_append, List.length_singleton]
        omega
      · exact h.le.trans (by simp)
      · rw [List.length_append, List.length_singleton, hidx]

/-- After the beginning `p`, no name goes on with `c`. -/
theorem tracks_general {p : Bytes} {c : UInt8} {index : Nat}
    (h : ∀ name ∈ names, p <+: name → p.length < name.length → name.getD p.length 0 ≠ c) :
    Tracks (p ++ [c]) index .general := by
  intro name hname hpre
  have hlt : p.length < name.length := by
    have := hpre.length_le
    rwa [List.length_append, List.length_singleton] at this
  have hp := (List.prefix_append p [c]).trans hpre
  exact h name hname hp hlt ((append_prefix_iff hp hlt).1 hpre).symm

theorem token_ne_SP {ch c : UInt8} (h : token ch = some c) : ch ≠ SP := by
  rintro rfl
  have hnone : token SP = none := by decide
  rw [hnone] at h
  cases h

/-- A byte of a name keeps track of it. -/
theorem tracks_nameByte {p : Bytes} {parser : HttpParser} {ch c : UInt8} (htok : token ch = some c)
    (h : Tracks p parser.index parser.headerState) :
    Tracks (p ++ [c]) (Exec.nameByte parser ch c).index (Exec.nameByte parser ch c).headerState := by
  have hsp := token_ne_SP htok
  have hended {text : Bytes} (hp : p = text)
      (htext : ∀ name ∈ names, text <+: name → name.length ≤ text.length) :
      Tracks (p ++ [c]) parser.index .general := by
    subst hp
    exact tracks_general fun name hname hpre hlt => absurd hlt (Nat.not_lt.2 (htext name hname hpre))
  cases hs : parser.headerState with
  | general =>
    rw [hs] at h
    simp only [Exec.nameByte, hs]
    intro name hname hpre
    exact h name hname ((List.prefix_append p [c]).trans hpre)
  | C =>
    rw [hs] at h
    obtain ⟨rfl, hidx⟩ := h
    simp only [Exec.nameByte, hs]
    split
    · rename_i hc
      exact ⟨by rw [hc]; decide, by rw [hidx]⟩
    · rename_i hc
      refine tracks_general fun name hname hpre _ => ?_
      have : ∀ name ∈ names, bytes "c" <+: name → name.getD (bytes "c").length 0 = byte 'o' := by decide
      rw [this name hname hpre]
      exact Ne.symm hc
  | CO =>
    rw [hs] at h
    obtain ⟨rfl, hidx⟩ := h
    simp only [Exec.nameByte, hs]
    split
    · rename_i hc
      exact ⟨by rw [hc]; decide, by rw [hidx]⟩
    · rename_i hc
      refine tracks_general fun name hname hpre _ => ?_
      have hn : ∀ name ∈ names, bytes "co" <+: name → name.getD (bytes "co").length 0 = byte 'n' := by
        decide
      rw [hn name hname hpre]
      exact Ne.symm hc
  | CON =>
    rw [hs] at h
    obtain ⟨rfl, hidx⟩ := h
    simp only [Exec.nameByte, hs]
    split
    · rename_i hc
      rw [hc]
      exact ⟨by decide, by decide, by decide, by rw [hidx]; rfl⟩
    · split
      · rename_i hc
        rw [hc]
        exact ⟨by decide, by decide, by decide, by rw [hidx]; rfl⟩
      · rename_i hc hc'
        refine tracks_general fun name hname hpre _ hget => ?_
        have hn : ∀ name ∈ names, bytes "con" <+: name →
            name.getD (bytes "con").length 0 = byte 'n' ∨
              name.getD (bytes "con").length 0 = byte 't' := by decide
        rcases hn name hname hpre with h | h
        · exact hc (hget.symm.trans h)
        · exact hc' (hget.symm.trans h)
  | connection =>
    rw [hs] at h
    simp only [Exec.nameByte, hs, if_pos hsp]
    rcases h with h | h
    · exact hended h (by decide)
    · exact hended h (by decide)
  | contentLength =>
    rw [hs] at h
    simp only [Exec.nameByte, hs, if_pos hsp]
    exact hended h (by decide)
  | transferEncoding =>
    rw [hs] at h
    simp only [Exec.nameByte, hs, if_pos hsp]
    exact hended h (by decide)
  | upgrade =>
    rw [hs] at h
    simp only [Exec.nameByte, hs, if_pos hsp]
    exact hended h (by decide)
  | matchingConnection =>
    have hbegins : Begins CONNECTION 4 parser.index p := by rwa [hs] at h
    simp only [Exec.nameByte, hs]
    exact hbegins.matching (by decide) c .inl fun hnext => by rw [hs]; exact hnext
  | matchingProxyConnection =>
    have hbegins : Begins PROXY_CONNECTION 1 parser.index p := by rwa [hs] at h
    simp only [Exec.nameByte, hs]
    exact hbegins.matching (by decide) c .inr fun hnext => by rw [hs]; exact hnext
  | matchingContentLength =>
    have hbegins : Begins CONTENT_LENGTH 4 parser.index p := by rwa [hs] at h
    simp only [Exec.nameByte, hs]
    exact hbegins.matching (by decide) c id fun hnext => by rw [hs]; exact hnext
  | matchingTransferEncoding =>
    have hbegins : Begins TRANSFER_ENCODING 1 parser.index p := by rwa [hs] at h
    simp only [Exec.nameByte, hs]
    exact hbegins.matching (by decide) c id fun hnext => by rw [hs]; exact hnext
  | matchingUpgrade =>
    have hbegins : Begins UPGRADE 1 parser.index p := by rwa [hs] at h
    simp only [Exec.nameByte, hs]
    exact hbegins.matching (by decide) c id fun hnext => by rw [hs]; exact hnext
  | _ =>
    rw [hs] at h
    exact h.elim

/-- The first byte of a name. -/
theorem tracks_first (c : UInt8) : Tracks [c] 0 (Exec.firstHeaderState c) := by
  have hbegins {text : Bytes} (h : [c] <+: text) (hlt : 1 < text.length) : Begins text 1 0 [c] :=
    ⟨h, hlt, le_rfl, rfl⟩
  unfold Exec.firstHeaderState
  split
  · rename_i hc
    rw [hc]
    exact ⟨rfl, rfl⟩
  · split
    · rename_i hc
      exact hbegins (by rw [hc]; decide) (by decide)
    · split
      · rename_i hc
        exact hbegins (by rw [hc]; decide) (by decide)
      · split
        · rename_i hc
          exact hbegins (by rw [hc]; decide) (by decide)
        · refine tracks_general (p := []) fun name hname _ _ hget => ?_
          have hn : ∀ name ∈ names, name.getD ([] : Bytes).length 0 ∈
              [byte 'c', byte 'p', byte 't', byte 'u'] := by decide
          have hmem := hn name hname
          rw [hget] at hmem
          simp_all

/-- What the parser makes of a name. -/
theorem kind_of_tracks {p : Bytes} {index : Nat} {s : HeaderState} (h : Tracks p index s)
    (hp : p ≠ []) :
    s.kind = fieldKind p := by
  have hother (hnot : p ∉ names) : fieldKind p = .other := by
    simp only [names, List.mem_cons, List.not_mem_nil, or_false, not_or] at hnot
    obtain ⟨h₁, h₂, h₃, h₄, h₅⟩ := hnot
    simp [fieldKind, h₁, h₂, h₃, h₄, h₅]
  have hbegins {text : Bytes} {n : Nat} (hb : Begins text n index p)
      (hn : ∀ name ∈ names, name.take n = text.take n → name = text) : fieldKind p = .other := by
    refine hother fun hmem => ?_
    have := hn p hmem (take_eq_take hb.le List.prefix_rfl hb.isPrefix)
    exact absurd hb.lt (this ▸ Nat.lt_irrefl _)
  cases s with
  | general =>
    refine (hother fun hmem => ?_).symm
    exact h p hmem List.prefix_rfl
  | C | CO | CON =>
    rw [h.1]
    rfl
  | connection => 
    rcases h with rfl | rfl <;> rfl
  | contentLength | transferEncoding | upgrade =>
    obtain rfl := h
    rfl
  | matchingConnection => exact (hbegins h (by decide)).symm
  | matchingProxyConnection => exact (hbegins h (by decide)).symm
  | matchingContentLength => exact (hbegins h (by decide)).symm
  | matchingTransferEncoding => exact (hbegins h (by decide)).symm
  | matchingUpgrade => exact (hbegins h (by decide)).symm
  | _ => exact h.elim

/-! ## The values -/

/-- The value is `text`, letters in either case, perhaps with spaces after it. -/
def tells (text value : Bytes) : Bool := (value.rdropWhile (· == SP)).map lower = text

/-- The states of the parser while it compares a value with `text`. -/
structure Compares (text : Bytes) (matching matched : HeaderState) : Prop where
  matching_ne : matching ≠ .general ∧ matching ≠ matched
  matched_ne : matched ≠ .general
  ne_nil : text ≠ []
  no_space : SP ∉ text
  valueByte_matching : ∀ (e : Exec) ch, e.parser.headerState = matching → e.valueByte ch =
    ({ e with parser := Exec.matching e.parser text matched (lower ch) }, .advance 0)
  valueByte_matched : ∀ (e : Exec) ch, e.parser.headerState = matched →
    e.valueByte ch = (if ch ≠ SP then e.header .general else e, .advance 0)

theorem compares_chunked :
    Compares CHUNKED .matchingTransferEncodingChunked .transferEncodingChunked where
  matching_ne := ⟨by decide, by decide⟩
  matched_ne := by decide
  ne_nil := by decide
  no_space := by decide
  valueByte_matching e ch h := by simp only [Exec.valueByte, h]
  valueByte_matched e ch h := by simp only [Exec.valueByte, h]

theorem compares_keepAlive :
    Compares KEEP_ALIVE .matchingConnectionKeepAlive .connectionKeepAlive where
  matching_ne := ⟨by decide, by decide⟩
  matched_ne := by decide
  ne_nil := by decide
  no_space := by decide
  valueByte_matching e ch h := by simp only [Exec.valueByte, h]
  valueByte_matched e ch h := by simp only [Exec.valueByte, h]

theorem compares_close : Compares CLOSE .matchingConnectionClose .connectionClose where
  matching_ne := ⟨by decide, by decide⟩
  matched_ne := by decide
  ne_nil := by decide
  no_space := by decide
  valueByte_matching e ch h := by simp only [Exec.valueByte, h]
  valueByte_matched e ch h := by simp only [Exec.valueByte, h]

/-- No value that begins with `v`, nor `v` itself, is `text`. -/
def Differs (text v : Bytes) : Prop := tells text v = false ∧ ¬v.map lower <+: text

/-- What the beginning `v` of a value says in the state `s`. -/
def Follows (text : Bytes) (matching matched : HeaderState) (v : Bytes) (index : Nat)
    (s : HeaderState) : Prop :=
  (s = matching ∧ v.map lower <+: text ∧ v.length < text.length ∧ index + 1 = v.length) ∨
    (s = matched ∧ tells text v = true) ∨
    (s = .general ∧ Differs text v)

variable {text v : Bytes} {matching matched : HeaderState}

theorem tells_append_space (text v : Bytes) : tells text (v ++ [SP]) = tells text v := by
  rw [tells, tells, List.rdropWhile_concat_pos _ _ _ (by simp)]

theorem tells_append {c : UInt8} (hc : c ≠ SP) (v : Bytes) :
    tells text (v ++ [c]) = true ↔ (v ++ [c]).map lower = text := by
  rw [tells, List.rdropWhile_concat_neg _ _ _ (by simpa using hc), decide_eq_true_iff]

theorem tells_false {c : UInt8} (hc : c ≠ SP) {v : Bytes} (h : ¬(v ++ [c]).map lower <+: text) :
    tells text (v ++ [c]) = false := by
  rw [← Bool.not_eq_true, tells_append hc]
  intro heq
  rw [heq] at h
  exact h List.prefix_rfl

theorem length_of_tells {v : Bytes} (h : tells text v = true) : text.length ≤ v.length := by
  rw [tells, decide_eq_true_iff] at h
  rw [← h, List.length_map]
  exact (List.rdropWhile_prefix _ v).length_le

theorem Differs.append {v : Bytes} (h : Differs text v) (ch : UInt8) : Differs text (v ++ [ch]) := by
  have hnot : ¬(v ++ [ch]).map lower <+: text := fun hpre => by
    rw [List.map_append] at hpre
    exact h.2 ((List.prefix_append _ _).trans hpre)
  refine ⟨?_, hnot⟩
  by_cases hch : ch = SP
  · rw [hch, tells_append_space]
    exact h.1
  · exact tells_false hch hnot

theorem lower_SP : lower SP = SP := by decide

/-- A byte of a value that is compared with a text. -/
theorem Compares.follows (hC : Compares text matching matched) {parser : HttpParser} {v : Bytes}
    (h : Follows text matching matched v parser.index parser.headerState) (ch : UInt8) :
    ∃ (s : HeaderState) (index : Nat),
      (∀ marks es, (Exec.mk parser marks es).valueByte ch =
        (⟨{ parser with headerState := s, index }, marks, es⟩, .advance 0)) ∧
      Follows text matching matched (v ++ [ch]) index s := by
  rcases h with ⟨hs, hpre, hlt, hidx⟩ | ⟨hs, htells⟩ | ⟨hs, hdiffers⟩
  · refine ⟨(Exec.matching parser text matched (lower ch)).headerState,
      (Exec.matching parser text matched (lower ch)).index,
      fun marks es => hC.valueByte_matching _ ch hs, ?_⟩
    have hmap : (v ++ [ch]).map lower = v.map lower ++ [lower ch] := by simp
    have hlen : (v.map lower).length = v.length := List.length_map ..
    have hnext : lower ch ≠ text.getD (parser.index + 1) 0 ↔ ¬(v ++ [ch]).map lower <+: text := by
      rw [hmap, append_prefix_iff hpre (by rw [hlen]; exact hlt), hlen, hidx]
    have hshort : ¬text.length < parser.index + 1 := by omega
    have hsp (h : (v ++ [ch]).map lower <+: text) : ch ≠ SP := by
      rintro rfl
      have hmem : lower SP ∈ (v ++ [SP]).map lower := by simp
      rw [lower_SP] at hmem
      exact hC.no_space (h.subset hmem)
    simp only [Exec.matching, hshort, false_or, hnext]
    split
    · rename_i hnot
      by_cases hch : ch = SP
      · refine .inr (.inr ⟨rfl, ?_, hnot⟩)
        rw [hch, tells_append_space, ← Bool.not_eq_true]
        exact fun htells => absurd (length_of_tells htells) (Nat.not_le.2 hlt)
      · exact .inr (.inr ⟨rfl, tells_false hch hnot, hnot⟩)
    · rename_i hpre'
      rw [not_not] at hpre'
      split
      · refine .inr (.inl ⟨rfl, (tells_append (hsp hpre') v).2 (hpre'.eq_of_length ?_)⟩)
        rw [List.length_map, List.length_append, List.length_singleton]
        omega
      · refine .inl ⟨hs, hpre', ?_, ?_⟩
        · rw [List.length_append, List.length_singleton]
          omega
        · rw [List.length_append, List.length_singleton, hidx]
  · by_cases hch : ch = SP
    · refine ⟨matched, parser.index, fun marks es => ?_, .inr (.inl ⟨rfl, ?_⟩)⟩
      · rw [hC.valueByte_matched _ ch hs, if_neg (not_not.2 hch), ← hs]
      · rwa [hch, tells_append_space]
    · have hlen := length_of_tells htells
      have hnot : ¬(v ++ [ch]).map lower <+: text := fun hpre => by
        have := hpre.length_le
        rw [List.length_map, List.length_append, List.length_singleton] at this
        omega
      refine ⟨.general, parser.index, fun marks es => ?_,
        .inr (.inr ⟨rfl, tells_false hch hnot, hnot⟩)⟩
      rw [hC.valueByte_matched _ ch hs, if_pos hch]
      rfl
  · refine ⟨.general, parser.index, fun marks es => ?_, .inr (.inr ⟨rfl, hdiffers.append ch⟩)⟩
    simp only [Exec.valueByte, hs]
    rfl

/-- How a value has ended. -/
theorem Follows.ends {v : Bytes} {index : Nat} {s : HeaderState}
    (h : Follows text matching matched v index s) :
    (s = matched ∧ tells text v = true) ∨ ((s = matching ∨ s = .general) ∧ tells text v = false) := by
  rcases h with ⟨hs, -, hlt, -⟩ | ⟨hs, htells⟩ | ⟨hs, hdiffers⟩
  · refine .inr ⟨.inl hs, ?_⟩
    rw [← Bool.not_eq_true]
    exact fun h => absurd (length_of_tells h) (Nat.not_le.2 hlt)
  · exact .inl ⟨hs, htells⟩
  · exact .inr ⟨.inr hs, hdiffers.1⟩

/-! ### The content length -/

/-- The number that the digits of a value make, spaces being passed over. -/
def decimal (value : Bytes) : Nat :=
  value.foldl (fun n ch => if ch = SP then n else n * 10 + (ch.toNat - 48)) 0

theorem decimal_append (v w : Bytes) : decimal v ≤ decimal (v ++ w) := by
  rw [decimal, decimal, List.foldl_append]
  generalize v.foldl _ 0 = n
  induction w generalizing n with
  | nil => exact le_rfl
  | cons ch w ih =>
    rw [List.foldl_cons]
    refine le_trans ?_ (ih _)
    split <;> omega

theorem decimal_concat (v : Bytes) (ch : UInt8) :
    decimal (v ++ [ch]) = if ch = SP then decimal v else decimal v * 10 + (ch.toNat - 48) := by
  rw [decimal, List.foldl_concat]
  rfl

/-- What the parser makes of the digits of a number, in bytes. -/
theorem decimal_digits (cs : List Char) (hcs : ∀ c ∈ cs, c.isDigit = true) :
    (∀ ch ∈ cs.map byte, isNum ch = true) ∧ decimal (cs.map byte) = Nat.ofDigitChars 10 cs 0 := by
  have hdigit (c : Char) (hc : c.isDigit = true) :
      isNum (byte c) = true ∧ byte c ≠ SP ∧ (byte c).toNat = c.toNat := by
    have hc' : 48 ≤ c.toNat ∧ c.toNat ≤ 57 := by
      simpa [Char.isDigit, UInt32.le_iff_toNat_le] using hc
    obtain ⟨hl, hu⟩ := hc'
    have hnat : (byte c).toNat = c.toNat := by
      simp only [byte, UInt8.toNat_ofNat']
      omega
    refine ⟨?_, ?_, hnat⟩
    · have h0 : (byte '0').toNat = 48 := rfl
      have h9 : (byte '9').toNat = 57 := rfl
      simp [isNum, UInt8.le_iff_toNat_le, hnat, h0, h9, hl, hu]
    · intro h
      rw [h] at hnat
      have : SP.toNat = 32 := rfl
      omega
  refine ⟨?_, ?_⟩
  · rintro ch hch
    obtain ⟨c, hc, rfl⟩ := List.mem_map.1 hch
    exact (hdigit c (hcs c hc)).1
  · rw [decimal, Nat.ofDigitChars_eq_foldl, List.foldl_map]
    refine List.foldl_ext _ _ _ fun n c hc => ?_
    obtain ⟨-, hsp, hnat⟩ := hdigit c (hcs c hc)
    rw [if_neg hsp, hnat, Nat.mul_comm]
    rfl

/-- A number, as it is written and as it is read. -/
theorem decimal_toString (n : Nat) : decimal (bytes (toString n)) = n ∧
    ∀ ch ∈ bytes (toString n), isNum ch = true := by
  have htext : bytes (toString n) = (Nat.toDigits 10 n).map byte := by
    rw [bytes, Nat.toString_eq_ofList_toDigits, String.toList_ofList]
  obtain ⟨hnum, hdecimal⟩ := decimal_digits (Nat.toDigits 10 n) fun c hc =>
    Nat.isDigit_of_mem_toDigits (by decide) (by decide) hc
  rw [htext, hdecimal, Nat.ofDigitChars_ten_toDigits]
  exact ⟨rfl, hnum⟩

/-- A value of digits that the parser takes for a number. -/
structure IsLength (value : Bytes) : Prop where
  digits : ∀ ch ∈ value, isNum ch = true ∨ ch = SP
  le : decimal value / 10 ≤ (ULLONG_MAX - 10) / 10

/-- A byte of a content length. -/
theorem IsLength.valueByte {v w : Bytes} {ch : UInt8} (h : IsLength (v ++ ch :: w))
    {parser : HttpParser}
    (hs : parser.headerState = .contentLength) (hlen : parser.contentLength = decimal v)
    (marks : Kind → Option Bytes) (es : List Event) : (Exec.mk parser marks es).valueByte ch =
      (⟨{ parser with contentLength := decimal (v ++ [ch]) }, marks, es⟩, .advance 0) := by
  rw [decimal_concat]
  by_cases hsp : ch = SP
  · have hparser : { parser with contentLength := decimal v } = parser := by rw [← hlen]
    rw [if_pos hsp, hparser]
    simp only [Exec.valueByte, hs, if_pos hsp]
  · have hnum : isNum ch = true := (h.digits ch (by simp)).resolve_right hsp
    have hle : decimal (v ++ [ch]) ≤ decimal (v ++ ch :: w) := by
      have := decimal_append (v ++ [ch]) w
      rwa [List.append_assoc] at this
    rw [decimal_concat, if_neg hsp] at hle
    have hmax := h.le
    have hfits : ¬(ULLONG_MAX - 10) / 10 < decimal v := by omega
    simp only [Exec.valueByte, hs, hlen, if_neg hsp, if_pos hnum, if_neg hfits]

/-! ## What a header says -/

/-- The flags, once the header is finished. -/
def HeaderState.flags (s : HeaderState) (flags : Flags) : Flags :=
  match s with
  | .connectionKeepAlive => { flags with connectionKeepAlive := true }
  | .connectionClose => { flags with connectionClose := true }
  | .transferEncodingChunked => { flags with chunked := true }
  | _ => flags

theorem Exec.finishHeader_eq (e : Exec) : e.finishHeader =
    { e with parser := { e.parser with flags := e.parser.headerState.flags e.parser.flags } } := by
  unfold finishHeader
  split
  · rename_i hs
    rw [hs]
    rfl
  · rename_i hs
    rw [hs]
    rfl
  · rename_i hs
    rw [hs]
    rfl
  · rename_i h₁ h₂ h₃
    have hflags : e.parser.headerState.flags e.parser.flags = e.parser.flags := by
      unfold HeaderState.flags
      split
      · exact absurd ‹_› h₁
      · exact absurd ‹_› h₂
      · exact absurd ‹_› h₃
      · rfl
    rw [hflags]

/-- What a header of a kind says: the flags, and the content length. -/
def FieldKind.apply (kind : FieldKind) (value : Bytes) (s : Flags × Nat) : Flags × Nat :=
  if value = [] then s
  else match kind with
    | .connection => ({ s.1 with
        connectionKeepAlive := s.1.connectionKeepAlive || tells KEEP_ALIVE value
        connectionClose := s.1.connectionClose || tells CLOSE value }, s.2)
    | .contentLength => (s.1, decimal value)
    | .transferEncoding => ({ s.1 with chunked := s.1.chunked || tells CHUNKED value }, s.2)
    | .upgrade => ({ s.1 with upgrade := true }, s.2)
    | .other => s

/-- What may stand in a line of the headers. -/
def isHeader (name value : Bytes) : Bool :=
  name ≠ [] && name.all (fun ch => (token ch).isSome) &&
    value.all (fun ch => ch ≠ CR && ch ≠ LF) && value.head?.all fun ch => !isBlank ch

end HttpParser

/-- A line of the headers. -/
structure Field where
  name : Bytes
  /-- The white space before the value. -/
  blanks : Bytes
  value : Bytes
  name_ne_nil : name ≠ []
  name_token : ∀ ch ∈ name, HttpParser.token ch ≠ none
  blanks_blank : ∀ ch ∈ blanks, isBlank ch = true
  value_line : ∀ ch ∈ value, ch ≠ HttpParser.CR ∧ ch ≠ HttpParser.LF
  value_head : ∀ ch ∈ value.head?, isBlank ch = false

namespace Field

open HttpParser

/-- The line, with its end. -/
def text (f : Field) : Bytes := f.name ++ byte ':' :: (f.blanks ++ f.value ++ [CR, LF])

/-- The kind of the header. -/
def kind (f : Field) : FieldKind := fieldKind (f.name.map lowerCase)

/-- The parser understands the value: it is a number if it has to be. -/
def Ok (f : Field) : Prop := f.kind = .contentLength → HttpParser.IsLength f.value

/-- What the header says. -/
def apply (f : Field) (s : Flags × Nat) : Flags × Nat := f.kind.apply f.value s

/-- A header whose value begins right after one space. -/
def spaced (name value : Bytes) (h : isHeader name value = true) : Field where
  name := name
  blanks := [SP]
  value := value
  name_ne_nil := by
    simp only [isHeader, Bool.and_eq_true, decide_eq_true_eq] at h
    exact h.1.1.1
  name_token := by
    simp only [isHeader, Bool.and_eq_true, List.all_eq_true] at h
    exact fun ch hch => Option.isSome_iff_ne_none.1 (h.1.1.2 ch hch)
  blanks_blank := List.forall_mem_singleton.2 rfl
  value_line := by
    simp only [isHeader, Bool.and_eq_true, List.all_eq_true, decide_eq_true_eq] at h
    exact h.1.2
  value_head := by
    simp only [isHeader, Bool.and_eq_true, Option.all_eq_true, Bool.not_eq_true'] at h
    exact h.2

theorem kind_spaced {name value : Bytes} (h : isHeader name value = true) :
    (spaced name value h).kind = fieldKind (name.map lowerCase) := rfl

theorem value_spaced {name value : Bytes} (h : isHeader name value = true) :
    (spaced name value h).value = value := rfl

end Field

end Mistress
