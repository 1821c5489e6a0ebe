import Mistress.Decoder
import Mistress.Recv

/-!
# Unzipping a body

`lua_mistress_gunzip` feeds a string to `inflate` and collects what comes out, in chunks.
Its inner loop calls `inflate` as long as a chunk is filled, its outer loop begins with the
whole string again until the end of the stream is found. `inflate` is any decoder of
streams, and `inflateInit2` is taken to succeed: where it does not, the process exits
before the loops.

* `FirstPass.pass`: going through the string once, the decoder makes of it what it makes of
  it at all, whatever the chunks are;
* `total_iff`: the loops are left, and no byte is offered twice, if and only if the decoder
  comes to the end of the stream or finds an error in the first pass.

When the string ends before the stream does, it is offered to the decoder a second time.
-/

open LuaStack

namespace Mistress

/-- The codes with which `inflate` fails. -/
inductive Failure
  /-- `Z_NEED_DICT` -/
  | needDict
  /-- `Z_DATA_ERROR` -/
  | dataError
  /-- `Z_MEM_ERROR` -/
  | memError

/-- `inflate`, as a decoder of bytes. It returns `Z_STREAM_END` at the end of the stream, and
    `Z_OK` or `Z_BUF_ERROR` where it stops for want of input or room. -/
abbrev Inflate := Decoder UInt8 UInt8 Failure

/-- How `lua_mistress_gunzip` ends. -/
inductive Unzipped
  /-- It pushes a string. -/
  | pushed (b : Bytes)
  /-- The process exits. -/
  | exited

/-- The variables of `lua_mistress_gunzip`. -/
structure Gunzip (d : Inflate) where
  /-- The state of the decoder. -/
  state : d.State
  /-- `next_in`, as the position in the string. -/
  nextIn : Nat
  availIn : Nat
  /-- The buffer of the result. -/
  buffer : Bytes
  /-- History: the positions of the bytes the decoder has read. -/
  offered : List Nat

namespace Gunzip

variable {d : Inflate} (data : Bytes)

/-- The input `inflate` finds. -/
def input (g : Gunzip d) : Bytes := (data.drop g.nextIn).take g.availIn

/-- The call of `inflate`, with a chunk to be filled. -/
def inflate (g : Gunzip d) : d.Call := d.call g.state (g.input data) CHUNK

/-- The variables after a call of `inflate`, whose output is added to the result. -/
def after (g : Gunzip d) (c : d.Call) : Gunzip d where
  state := c.state
  nextIn := g.nextIn + (g.availIn - c.rest.length)
  availIn := c.rest.length
  buffer := g.buffer ++ c.out
  offered := g.offered ++ List.range' g.nextIn (g.availIn - c.rest.length)

/-- The outer loop begins. -/
def enter (g : Gunzip d) : Gunzip d × Option Unzipped :=
  if data.length = 0 then (g, some (.pushed g.buffer))
  else ({ g with nextIn := 0, availIn := data.length }, none)

/-- A call of `inflate`, with what comes after it up to the next one. -/
def round (g : Gunzip d) : Gunzip d × Option Unzipped :=
  let c := g.inflate data
  match c.stop with
  | .failed _ => (g.after c, some .exited)
  | stop =>
    -- The inner loop goes on as long as no room is left in the chunk.
    if CHUNK - c.out.length = 0 then (g.after c, none)
    else match stop with
      | .finished => (g.after c, some (.pushed (g.after c).buffer))
      | _ => (g.after c).enter data

/-- `lua_mistress_gunzip`, for at most `n` calls of `inflate`. -/
def rounds : Gunzip d × Option Unzipped → Nat → Gunzip d × Option Unzipped
  | (g, none), n + 1 => rounds (g.round data) n
  | r, _ => r

/-- The variables before the first call. -/
def start (d : Inflate) : Gunzip d := ⟨d.init, 0, 0, [], []⟩

/-- The loops of `lua_mistress_gunzip` are **total** on a string: they are left after
    finitely many calls, no byte is offered twice, what is pushed is what the decoder makes of
    a complete stream, and at most what it makes of a truncated one. -/
def Total (d : Inflate) : Prop :=
  ∃ n g r, rounds data ((start d).enter data) n = (g, some r) ∧ g.offered.Nodup ∧
    (∀ out rest, d.Decodes d.init data out (.finished rest) → r = .pushed out) ∧
    (∀ out s, d.Decodes d.init data out (.truncated s) →
      r = .exited ∨ ∃ b, r = .pushed b ∧ b <+: out)

variable {data} {g : Gunzip d} {n : Nat} {out : Bytes} {e : d.End}

/-! ## Rounds -/

@[simp] theorem rounds_zero (r : Gunzip d × Option Unzipped) : rounds data r 0 = r := by
  obtain ⟨g, _ | r⟩ := r <;> rfl

@[simp] theorem rounds_none : rounds data (g, none) (n + 1) = rounds data (g.round data) n := rfl

@[simp] theorem rounds_some {r : Unzipped} : rounds data (g, some r) n = (g, some r) := by
  cases n <;> rfl

theorem rounds_add (r : Gunzip d × Option Unzipped) (m n : Nat) :
    rounds data r (m + n) = rounds data (rounds data r m) n := by
  induction m generalizing r with
  | zero =>
    rw [Nat.zero_add]
    obtain ⟨g, _ | r⟩ := r <;> rfl
  | succ m ih =>
    obtain ⟨g, _ | r⟩ := r
    · rw [Nat.add_right_comm, rounds_none, rounds_none, ih]
    · simp

theorem enter_offered : (g.enter data).1.offered = g.offered := by
  unfold enter
  split <;> rfl

theorem decodes_iff_inflate : d.Decodes g.state (g.input data) out e ↔
    ∃ out', out = (g.inflate data).out ++ out' ∧
      d.Decodes (g.inflate data).state (g.inflate data).rest out' e :=
  Decoder.decodes_iff_call CHUNK

/-- What a call of `inflate` leads to. -/
theorem round_cases (data : Bytes) (g : Gunzip d) :
    (∃ f, (g.inflate data).stop = .failed f ∧
      g.round data = (g.after (g.inflate data), some .exited)) ∨
    ((g.inflate data).out.length = CHUNK ∧ g.round data = (g.after (g.inflate data), none)) ∨
    ((g.inflate data).stop = .finished ∧ g.round data =
      (g.after (g.inflate data), some (.pushed (g.after (g.inflate data)).buffer))) ∨
    ((g.inflate data).stop = .inputEnd ∧
      g.round data = (g.after (g.inflate data)).enter data) := by
  have hle : (g.inflate data).out.length ≤ CHUNK := Decoder.call_out _ _ _
  have hstopped := Decoder.call_stopped g.state (g.input data) CHUNK
  rw [← inflate, Decoder.Call.Stopped] at hstopped
  -- The inner loop goes on if and only if the chunk has been filled.
  by_cases hfull : (g.inflate data).out.length = CHUNK
  · have hroom : CHUNK - (g.inflate data).out.length = 0 := by omega
    cases hstop : (g.inflate data).stop with
    | failed f => exact .inl ⟨f, rfl, by simp only [round, hstop]⟩
    | inputEnd | outputFull | finished =>
      exact .inr (.inl ⟨hfull, by simp only [round, hstop, hroom, if_true]⟩)
  · have hroom : CHUNK - (g.inflate data).out.length ≠ 0 := by omega
    cases hstop : (g.inflate data).stop with
    | failed f => exact .inl ⟨f, rfl, by simp only [round, hstop]⟩
    | finished => exact .inr (.inr (.inl ⟨rfl, by simp only [round, hstop, hroom, if_false]⟩))
    | inputEnd => exact .inr (.inr (.inr ⟨rfl, by simp only [round, hstop, hroom, if_false]⟩))
    | outputFull =>
      -- `inflate` stops for want of room only when there is none.
      rw [hstop] at hstopped
      exact absurd hstopped.1 hfull

theorem offered_round (g : Gunzip d) :
    (g.round data).1.offered = (g.after (g.inflate data)).offered := by
  rcases round_cases data g with ⟨_, -, h⟩ | ⟨-, h⟩ | ⟨-, h⟩ | ⟨-, h⟩ <;> rw [h]
  rw [enter_offered]

/-- What has been offered stays offered. -/
theorem offered_rounds (data : Bytes) (r : Gunzip d × Option Unzipped) (n : Nat) :
    r.1.offered <+: (rounds data r n).1.offered := by
  induction n generalizing r with
  | zero => obtain ⟨g, _ | r⟩ := r <;> exact List.prefix_rfl
  | succ n ih =>
    obtain ⟨g, _ | r⟩ := r
    · have hround : g.offered <+: (g.round data).1.offered := by
        rw [offered_round]
        exact List.prefix_append _ _
      exact hround.trans (ih _)
    · simp

/-! ## The first pass -/

/-- What holds in the first pass: the bytes before `next_in` have been offered, once. -/
structure FirstPass (data : Bytes) (g : Gunzip d) : Prop where
  avail : g.nextIn + g.availIn = data.length
  offered : g.offered = List.range g.nextIn

theorem FirstPass.after (h : FirstPass data g) : FirstPass data (g.after (g.inflate data)) ∧
    (g.after (g.inflate data)).input data = (g.inflate data).rest := by
  have hlength : (g.input data).length = g.availIn := by
    rw [input, List.length_take, List.length_drop]
    have := h.avail
    omega
  have hsuffix : (g.inflate data).rest <:+ g.input data := Decoder.call_rest _ _ _
  have hle := hsuffix.length_le
  rw [hlength] at hle
  have havail := h.avail
  refine ⟨⟨?_, ?_⟩, ?_⟩
  · simp only [Gunzip.after]
    omega
  · simp only [Gunzip.after]
    rw [h.offered, List.range_eq_range', List.range_eq_range', ← List.range'_append_1,
      Nat.zero_add]
  · -- What is left of the input is where `next_in` points to.
    have hdrop := List.suffix_iff_eq_drop.1 hsuffix
    have hrest : g.availIn - (g.availIn - (g.inflate data).rest.length) =
        (g.inflate data).rest.length := by omega
    rw [hlength, input, List.drop_take, List.drop_drop, hrest] at hdrop
    exact hdrop.symm

/-- What the end of the first pass leads to. -/
def leave (data : Bytes) (g : Gunzip d) : d.End → Gunzip d × Option Unzipped
  | .finished _ => (g, some (.pushed g.buffer))
  | .failed _ => (g, some .exited)
  | .truncated _ => g.enter data

/-- The first pass makes of the string what the decoder makes of it at all. Then the loops
    are left, or the string is offered again if the decoder needs more of it. -/
theorem FirstPass.pass (h : FirstPass data g) (hd : d.Decodes g.state (g.input data) out e) :
    ∃ n g', FirstPass data g' ∧ g'.buffer = g.buffer ++ out ∧
      (∀ s, e = .truncated s → g'.state = s ∧ g'.nextIn = data.length) ∧
      rounds data (g, none) n = g'.leave data e := by
  induction hn : out.length using Nat.strongRecOn generalizing g out with
  | ind n ih =>
    subst hn
    have hfirst := h.after
    -- A call that comes to an end has made all of the output.
    have hend : ∀ e', (g.inflate data).ending = some e' → out = (g.inflate data).out ∧ e = e' :=
      fun e' he' => hd.unique (Decoder.decodes_of_ending he')
    rcases round_cases data g with ⟨f, hstop, hr⟩ | ⟨hfull, hr⟩ | ⟨hstop, hr⟩ | ⟨hstop, hr⟩
    · obtain ⟨rfl, rfl⟩ := hend (.failed f) (by rw [Decoder.Call.ending, hstop])
      exact ⟨1, _, hfirst.1, rfl, by simp, by rw [rounds_none, hr, rounds_some, leave]⟩
    · -- The chunk is full: by induction on the output that is yet to come.
      obtain ⟨out', rfl, hd'⟩ := decodes_iff_inflate.1 hd
      rw [← hfirst.2] at hd'
      have hlt : out'.length < ((g.inflate data).out ++ out').length := by
        rw [List.length_append, Nat.lt_add_left_iff_pos, hfull]
        decide
      obtain ⟨n, g', hg', hbuffer, htrunc, hrounds⟩ := ih _ hlt hfirst.1 hd' rfl
      refine ⟨n + 1, g', hg', ?_, htrunc, by rw [rounds_none, hr, hrounds]⟩
      rw [hbuffer, Gunzip.after, List.append_assoc]
    · obtain ⟨rfl, rfl⟩ := hend (.finished (g.inflate data).rest) (by rw [Decoder.Call.ending, hstop])
      exact ⟨1, _, hfirst.1, rfl, by simp, by rw [rounds_none, hr, rounds_some, leave]⟩
    · obtain ⟨rfl, rfl⟩ := hend (.truncated (g.inflate data).state)
        (by rw [Decoder.Call.ending, hstop])
      -- The input has come to an end: all of the string has been read.
      have hread : (g.after (g.inflate data)).nextIn = data.length := by
        have havail := hfirst.1.avail
        have hstopped := Decoder.call_stopped g.state (g.input data) CHUNK
        rw [← inflate, Decoder.Call.Stopped, hstop] at hstopped
        simp only [Gunzip.after, hstopped.1, List.length_nil, Nat.add_zero] at havail ⊢
        exact havail
      refine ⟨1, _, hfirst.1, rfl, ?_, by rw [rounds_none, hr, rounds_zero, leave]⟩
      rintro s hs
      exact ⟨Decoder.End.truncated.inj hs, hread⟩

/-- If the decoder comes to no end, neither do the loops. -/
theorem FirstPass.not_some (h : FirstPass data g)
    (hd : ∀ out e, ¬ d.Decodes g.state (g.input data) out e) (n : Nat) :
    (rounds data (g, none) n).2 = none := by
  induction n generalizing g with
  | zero => rfl
  | succ n ih =>
    have hfirst := h.after
    have hend : (g.inflate data).ending = none := by
      by_contra hne
      obtain ⟨e, he⟩ := Option.ne_none_iff_exists'.1 hne
      exact hd _ _ (Decoder.decodes_of_ending he)
    rcases round_cases data g with ⟨f, hstop, hr⟩ | ⟨hfull, hr⟩ | ⟨hstop, hr⟩ | ⟨hstop, hr⟩
    · rw [Decoder.Call.ending, hstop] at hend
      cases hend
    · rw [rounds_none, hr]
      -- Only a full chunk does not end anything, and the pass goes on.
      refine ih hfirst.1 fun out e hd' => ?_
      rw [hfirst.2] at hd'
      exact hd _ _ (decodes_iff_inflate.2 ⟨out, rfl, hd'⟩)
    · rw [Decoder.Call.ending, hstop] at hend
      cases hend
    · rw [Decoder.Call.ending, hstop] at hend
      cases hend

/-! ## The loops -/

/-- The variables at the beginning of a pass. -/
def rewind (data : Bytes) (g : Gunzip d) : Gunzip d :=
  { g with nextIn := 0, availIn := data.length }

theorem enter_of_ne_nil (h : data ≠ []) : g.enter data = (g.rewind data, none) := by
  rw [enter, if_neg (by simpa using h), rewind]

theorem input_rewind : (g.rewind data).input data = data := by
  rw [input, rewind, List.drop_zero, List.take_length]

theorem firstPass_start (data : Bytes) (d : Inflate) : FirstPass data ((start d).rewind data) :=
  ⟨Nat.zero_add _, rfl⟩

/-- A decoder that needs more is offered the first byte again. -/
theorem offered_again {next : UInt8 → d.State} (h : data ≠ [])
    (hm : d.move g.state = .need next) : ∃ later,
    ((g.rewind data).after ((g.rewind data).inflate data)).offered = g.offered ++ 0 :: later := by
  obtain ⟨b, data, rfl⟩ := List.exists_cons_of_ne_nil h
  have hrest : ((g.rewind (b :: data)).inflate (b :: data)).rest.length ≤ data.length := by
    rw [inflate, input_rewind, Decoder.call]
    simp only [rewind, hm]
    exact (Decoder.call_rest _ _ _).length_le
  have hread : (b :: data).length - ((g.rewind (b :: data)).inflate (b :: data)).rest.length =
      data.length - ((g.rewind (b :: data)).inflate (b :: data)).rest.length + 1 := by
    rw [List.length_cons]
    omega
  refine ⟨List.range' 1 (data.length - ((g.rewind (b :: data)).inflate (b :: data)).rest.length), ?_⟩
  calc ((g.rewind (b :: data)).after ((g.rewind (b :: data)).inflate (b :: data))).offered
      = g.offered ++ List.range' 0 ((b :: data).length -
          ((g.rewind (b :: data)).inflate (b :: data)).rest.length) := rfl
    _ = _ := by rw [hread, List.range'_succ]

/-- Offering the string a second time repeats its first byte, whenever the loops are left. -/
theorem FirstPass.not_nodup {next : UInt8 → d.State} {r : Unzipped} {g' : Gunzip d}
    (hg : FirstPass data g) (h : data ≠ []) (hin : g.nextIn = data.length)
    (hm : d.move g.state = .need next)
    (hrounds : rounds data (g.rewind data, none) n = (g', some r)) : ¬ g'.offered.Nodup := by
  obtain ⟨later, hlater⟩ := offered_again h hm
  intro hnodup
  have hprefix : g.offered ++ 0 :: later <+: g'.offered := by
    have hround := offered_rounds data ((g.rewind data).round data) n
    rwa [← rounds_none, rounds_add (g.rewind data, none) n 1, hrounds, rounds_some, offered_round,
      hlater] at hround
  -- The first byte is among those offered in the first pass.
  have hagain := hprefix.sublist.nodup hnodup
  rw [hg.offered, hin, List.nodup_append] at hagain
  exact hagain.2.2 0 (List.mem_range.2 (List.length_pos_iff.2 h)) 0 List.mem_cons_self rfl

/-- What the decoder makes of the string at all, it makes of it in the first pass. -/
theorem rounds_enter (h : data ≠ []) (hd : d.Decodes d.init data out e) :
    ∃ n g, FirstPass data g ∧ g.buffer = out ∧
      (∀ s, e = .truncated s → g.state = s ∧ g.nextIn = data.length) ∧
      rounds data ((start d).enter data) n = g.leave data e := by
  rw [enter_of_ne_nil h]
  exact (firstPass_start data d).pass ((input_rewind (g := start d)).symm ▸ hd)

theorem FirstPass.nodup (h : FirstPass data g) : g.offered.Nodup := by
  rw [h.offered]
  exact List.nodup_range

theorem total_of_finished {rest : Bytes} (h : data ≠ [])
    (hd : d.Decodes d.init data out (.finished rest)) : Total data d := by
  obtain ⟨n, g, hg, hbuffer, -, hn⟩ := rounds_enter h hd
  refine ⟨n, g, _, hn, hg.nodup, ?_, ?_⟩
  · intro out' rest' hd'
    rw [hbuffer, (hd.unique hd').1]
  · intro out' s hd'
    cases (hd.unique hd').2

theorem total_of_failed {f : Failure} (h : data ≠ [])
    (hd : d.Decodes d.init data out (.failed f)) : Total data d := by
  obtain ⟨n, g, hg, -, -, hn⟩ := rounds_enter h hd
  refine ⟨n, g, _, hn, hg.nodup, ?_, fun _ _ _ => .inl rfl⟩
  intro out' rest' hd'
  cases (hd.unique hd').2

/-- A string that is truncated is offered again, whether the loops are left or not. -/
theorem not_total_of_truncated {s : d.State} (h : data ≠ [])
    (hd : d.Decodes d.init data out (.truncated s)) : ¬ Total data d := by
  rintro ⟨n, g, r, hrounds, hnodup, -, -⟩
  obtain ⟨next, hm⟩ := hd.needs_more
  obtain ⟨k, g', hg', -, htrunc, hk⟩ := rounds_enter h hd
  obtain ⟨rfl, hin⟩ := htrunc s rfl
  have hk' : rounds data ((start d).enter data) k = (g'.rewind data, none) :=
    hk.trans (enter_of_ne_nil h)
  -- The second pass begins within the calls after which the loops are left.
  refine hg'.not_nodup h hin hm (r := r) (n := n) ?_ hnodup
  rw [← hk', ← rounds_add, Nat.add_comm, rounds_add, hrounds, rounds_some]

theorem not_total_of_endless (h : data ≠ []) (hd : ∀ out e, ¬ d.Decodes d.init data out e) :
    ¬ Total data d := by
  rintro ⟨n, g, r, hrounds, -⟩
  rw [enter_of_ne_nil h] at hrounds
  have hnone := (firstPass_start data d).not_some (by rwa [input_rewind]) n
  rw [hrounds] at hnone
  cases hnone

/-- The loops are **total** on a string if and only if the decoder comes to the end of the
    stream, or finds an error, without needing more than the string. -/
theorem total_iff (h : data ≠ []) : Total data d ↔
    (∃ out rest, d.Decodes d.init data out (.finished rest)) ∨
      ∃ out f, d.Decodes d.init data out (.failed f) := by
  constructor
  · intro ht
    by_cases hd : ∃ out e, d.Decodes d.init data out e
    · obtain ⟨out, e, hd⟩ := hd
      cases e with
      | finished rest => exact .inl ⟨out, rest, hd⟩
      | failed f => exact .inr ⟨out, f, hd⟩
      | truncated s => exact absurd ht (not_total_of_truncated h hd)
    · push Not at hd
      exact absurd ht (not_total_of_endless h hd)
  · rintro (⟨out, rest, hd⟩ | ⟨out, f, hd⟩)
    · exact total_of_finished h hd
    · exact total_of_failed h hd

/-- The states of a decoder of streams whose first byte counts the bytes that follow. -/
inductive Counted
  | length
  | count (n : Nat)
  | write (b : UInt8) (n : Nat)

/-- A stream is the number of its bytes, and the bytes. -/
def counted : Inflate where
  State := Counted
  init := .length
  move
    | .length => .need fun b => .count b.toNat
    | .count 0 => .finish
    | .count (n + 1) => .need fun b => .write b n
    | .write b n => .emit b (.count n)

/-- A complete stream, with a byte after it. -/
theorem total_counted : Total [1, 65, 0] counted ↔
    (∃ out rest, counted.Decodes counted.init [1, 65, 0] out (.finished rest)) ∨
      ∃ out f, counted.Decodes counted.init [1, 65, 0] out (.failed f) :=
  total_iff (by decide)

/-- A stream that lacks its second byte is completed by its own first one. -/
theorem not_total : ¬ ∀ (d : Inflate) (data : Bytes), data ≠ [] → Total data d := fun h =>
  have htruncated : counted.Decodes counted.init [2, 65] [65] (.truncated (.count 1)) :=
    .need rfl (.need rfl (.emit rfl (.truncated rfl)))
  not_total_of_truncated (by decide) htruncated (h counted [2, 65] (by decide))

end Gunzip

end Mistress
