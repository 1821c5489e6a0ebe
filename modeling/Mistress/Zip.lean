import Mistress.Decoder
import Mistress.Recv

/-!
# Zipping the statistics

`lua_mistress_zip` feeds a string to `deflate`, which is told to finish the stream
(`Z_FINISH`), and collects what comes out, in chunks. `deflate` is called as long as a chunk
is filled; then all of the string is to have been read and the stream is to be complete.
`deflate` is any machine that reads and writes streams, and `deflateInit` is taken to
succeed: where it does not, `lua_mistress_zip` returns at once, with nothing pushed.

* `pushed_iff`: what is pushed is what the machine makes of the string, whatever the chunks are.
-/

open LuaStack

namespace Mistress

/-- `deflate` with `Z_FINISH`, as a decoder of streams: it reads the bytes of the string, and
    `none` where the string ends. It returns `Z_STREAM_END` at the end of the stream, and `Z_OK`
    or `Z_BUF_ERROR` where it stops for want of input or room. -/
abbrev Deflate := Decoder (Option UInt8) UInt8 Empty

/-- `CHUNK1` -/
def CHUNK1 : ℕ := 16384

/-- How `lua_mistress_zip` ends. -/
inductive Zipped
  /-- It pushes a string. -/
  | pushed (b : Bytes)
  /-- An assertion fails. -/
  | aborted

/-- The variables of `lua_mistress_zip`. -/
structure Zip (d : Deflate) where
  /-- The state of the machine. -/
  state : d.State
  /-- The bytes from `next_in` on, and the end of the string. -/
  input : List (Option UInt8)
  /-- The buffer of the result. -/
  buffer : Bytes

namespace Zip

variable {d : Deflate}

/-- `avail_in` -/
def availIn (z : Zip d) : ℕ := (z.input.filterMap id).length

/-- The call of `deflate`, with a chunk to be filled. -/
def deflate (z : Zip d) : d.Call := d.call z.state z.input CHUNK1

/-- The variables after a call of `deflate`, whose output is added to the result. -/
def after (z : Zip d) (c : d.Call) : Zip d := ⟨c.state, c.rest, z.buffer ++ c.out⟩

/-- What follows the loop: the assertions, and the result. -/
def leave (z : Zip d) (stop : Decoder.Stop Empty) : Zipped :=
  if z.availIn = 0 then
    match stop with
    | .finished => .pushed z.buffer
    | _ => .aborted
  else .aborted

/-- A call of `deflate`, with what comes after it up to the next one. -/
def round (z : Zip d) : Zip d × Option Zipped :=
  let c := z.deflate
  -- The loop goes on as long as no room is left in the chunk.
  if CHUNK1 - c.out.length = 0 then (z.after c, none)
  else (z.after c, some ((z.after c).leave c.stop))

/-- `lua_mistress_zip`, for at most `n` calls of `deflate`. -/
def rounds : ℕ → Zip d → Option Zipped
  | 0, _ => none
  | n + 1, z =>
    match z.round with
    | (z, none) => rounds n z
    | (_, some r) => some r

/-- The variables before the first call. -/
def start (d : Deflate) (data : Bytes) : Zip d := ⟨d.init, data.map some ++ [none], []⟩

variable {z : Zip d} {n : ℕ} {b : Bytes}

/-- What a call of `deflate` leads to. -/
theorem rounds_succ (n : ℕ) (z : Zip d) :
    (z.deflate.out.length = CHUNK1 ∧ rounds (n + 1) z = rounds n (z.after z.deflate)) ∨
    (z.deflate.out.length ≠ CHUNK1 ∧
      rounds (n + 1) z = some ((z.after z.deflate).leave z.deflate.stop)) := by
  have hle : z.deflate.out.length ≤ CHUNK1 := Decoder.call_out _ _ _
  by_cases hfull : z.deflate.out.length = CHUNK1
  · have hround : z.round = (z.after z.deflate, none) := if_pos (by omega)
    exact .inl ⟨hfull, by rw [rounds, hround]⟩
  · have hround : z.round = (z.after z.deflate, some ((z.after z.deflate).leave z.deflate.stop)) :=
      if_neg (by omega)
    exact .inr ⟨hfull, by rw [rounds, hround]⟩

theorem leave_pushed_iff {stop : Decoder.Stop Empty} :
    z.leave stop = .pushed b ↔ z.availIn = 0 ∧ stop = .finished ∧ z.buffer = b := by
  unfold leave
  split
  · rename_i h
    cases stop <;> simp [h]
  · rename_i h
    simp [h]

/-- What is pushed has been made of what was left of the string. -/
theorem decodes_of_rounds (h : rounds n z = some (.pushed b)) : ∃ out rest,
    b = z.buffer ++ out ∧ d.Decodes z.state z.input out (.finished rest) ∧
      rest.filterMap id = [] := by
  induction n generalizing z with
  | zero => cases h
  | succ n ih =>
    obtain ⟨-, hr⟩ | ⟨-, hr⟩ := rounds_succ n z
    · rw [hr] at h
      obtain ⟨out, rest, rfl, hd, hrest⟩ := ih h
      refine ⟨z.deflate.out ++ out, rest, List.append_assoc .., ?_, hrest⟩
      exact (Decoder.decodes_iff_call CHUNK1).2 ⟨out, rfl, hd⟩
    · rw [hr, Option.some.injEq, leave_pushed_iff] at h
      obtain ⟨havail, hstop, rfl⟩ := h
      have hend : z.deflate.ending = some (.finished z.deflate.rest) := by
        rw [Decoder.Call.ending, hstop]
      exact ⟨z.deflate.out, z.deflate.rest, rfl, Decoder.decodes_of_ending hend,
        List.length_eq_zero_iff.1 havail⟩

/-- What is made of the string is pushed. -/
theorem rounds_of_decodes {out : Bytes} {rest : List (Option UInt8)}
    (hd : d.Decodes z.state z.input out (.finished rest)) (hrest : rest.filterMap id = []) :
    ∃ n, rounds n z = some (.pushed (z.buffer ++ out)) := by
  induction hn : out.length using Nat.strongRecOn generalizing z out with
  | ind k ih =>
    subst hn
    by_cases hfull : z.deflate.out.length = CHUNK1
    · -- The chunk is full: by induction on the output that is yet to come.
      obtain ⟨out', rfl, hd'⟩ := (Decoder.decodes_iff_call CHUNK1).1 hd
      have hlt : out'.length < (z.deflate.out ++ out').length := by
        rw [List.length_append, Nat.lt_add_left_iff_pos, hfull]
        decide
      obtain ⟨n, hrounds⟩ := ih _ hlt (z := z.after z.deflate) hd' rfl
      refine ⟨n + 1, ?_⟩
      obtain ⟨-, hr⟩ | ⟨hnot, -⟩ := rounds_succ n z
      · rw [hr, hrounds, after, List.append_assoc]
        rfl
      · exact absurd hfull hnot
    · have hstopped : z.deflate.Stopped CHUNK1 := Decoder.call_stopped _ _ _
      -- A call that comes to an end has made all of the output.
      have hend : ∀ e, z.deflate.ending = some e → out = z.deflate.out ∧ .finished rest = e :=
        fun e he => hd.unique (Decoder.decodes_of_ending he)
      refine ⟨1, ?_⟩
      obtain ⟨hnot, -⟩ | ⟨-, hr⟩ := rounds_succ 0 z
      · exact absurd hnot hfull
      rw [hr, Option.some.injEq, leave_pushed_iff]
      cases hstop : z.deflate.stop with
      | inputEnd =>
        obtain ⟨-, he⟩ := hend (.truncated z.deflate.state) (by rw [Decoder.Call.ending, hstop])
        cases he
      | outputFull =>
        rw [Decoder.Call.Stopped, hstop] at hstopped
        exact absurd hstopped.1 hfull
      | finished =>
        obtain ⟨rfl, he⟩ := hend (.finished z.deflate.rest) (by rw [Decoder.Call.ending, hstop])
        obtain rfl := Decoder.End.finished.inj he
        exact ⟨List.length_eq_zero_iff.2 hrest, rfl, rfl⟩
      | failed e => cases e

/-- `lua_mistress_zip` pushes what `deflate` makes of the whole string, and pushes nothing if
    `deflate` does not come to the end of the stream or leaves some of the string. -/
theorem pushed_iff (d : Deflate) (data b : Bytes) :
    (∃ n, rounds n (start d data) = some (.pushed b)) ↔
      ∃ rest, d.Decodes d.init (data.map some ++ [none]) b (.finished rest) ∧
        rest.filterMap id = [] := by
  constructor
  · rintro ⟨n, h⟩
    obtain ⟨out, rest, rfl, hd, hrest⟩ := decodes_of_rounds h
    exact ⟨rest, hd, hrest⟩
  · rintro ⟨rest, hd, hrest⟩
    exact rounds_of_decodes (z := start d data) hd hrest

end Zip

end Mistress
