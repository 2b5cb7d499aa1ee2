/-
# Two ways to decompress

The two functions `gzip::ungzip` in `scaner_test/gzip.cpp`.  zlib is a parameter: a call of
`inflate` gets a window of `avail_out` bytes, writes some bytes at its beginning, and reports
an error or none.  `size_t`, `uInt` and `uLong` have 32 bits and wrap; `_ASSERT` and `assert`
do nothing in a release build.

`ungzipWindowed` decompresses through a window of 4096 bytes and appends what each call
wrote.  `ungzipFixed` decompresses into a buffer of 16 times the size of the input.  It takes
what is missing of `avail_out` to the size of the whole buffer for what the last call wrote,
and so counts what was written before a second time.  In the first turn that is right, so
the two agree as long as one turn is enough (`ungzip_agree_iff`); when the output fills the
buffer, the third window lies outside it or over what was written.
-/

import Mathlib.Data.Nat.Prime.Basic
import Scaner.Lib.Bytes
import Scaner.Lib.Machine

namespace Scaner
namespace Gzip

open Machine

/-- What `inflate` returns. -/
inductive InflateRet
  | ok
  | streamEnd
  | needDict
  | bufError
  | streamError
  | dataError
  | memError
  deriving DecidableEq

/-- The values for which `ungzip` gives up. -/
def InflateRet.givesUp : InflateRet → Bool
  | .needDict | .dataError | .memError => true
  | .ok | .streamEnd | .bufError | .streamError => false

/-- zlib on an input: the stream that `inflateInit2` prepares, if it does not fail, and what a
call of `inflate` with `avail_out` bytes of room writes and returns. -/
structure Zlib (σ : Type) where
  init : Option σ
  inflate : σ → ℕ → σ × Bytes × InflateRet
  length_le : ∀ s availOut, (inflate s availOut).2.1.length ≤ availOut

/-- What goes wrong: a byte is written outside the buffer, or `std::system_error` is thrown. -/
inductive Fault
  | outside
  | thrown
  deriving DecidableEq

/-- What is left of a number in 32 bits. -/
def wrapSize (x : ℕ) : ℕ := x % 2 ^ 32

/-- `x - y` of unsigned numbers. -/
def subSize (x y : ℕ) : ℕ := wrapSize (x + (2 ^ 32 - y))

variable {σ : Type}

/-! ### Into a buffer -/

/-- The buffer, `count_out`, and the stream. -/
structure Fixed (σ : Type) where
  out : Bytes
  countOut : ℕ
  stream : σ

/-- `d_stream.avail_out = uncomprLen - count_out`. -/
def Fixed.availOut (s : Fixed σ) : ℕ := subSize s.out.length s.countOut

/-- What `inflate` makes of the buffer when it writes the bytes `chunk` at `pos`. -/
def writeAt (out : Bytes) (pos : ℕ) (chunk : Bytes) : Except Fault Bytes :=
  if chunk = [] then .ok out
  else if out.length < pos + chunk.length then .error .outside
  else .ok (out.take pos ++ chunk ++ out.drop (pos + chunk.length))

/-- A turn of the loop: the value that is returned, with `out` and `count_out`. -/
def Fixed.step (z : Zlib σ) (s : Fixed σ) : Except Fault (Next (Fixed σ) (Bool × Bytes × ℕ)) :=
  match z.inflate s.stream s.availOut with
  | (stream, chunk, ret) =>
      match writeAt s.out s.countOut chunk with
      | .error e => .error e
      | .ok out =>
          if ret.givesUp then .ok (.ret (false, out, s.countOut))
          else
            let availOut := s.availOut - chunk.length
            let have' := subSize out.length availOut
            let countOut := wrapSize (s.countOut + have')
            if availOut = 0 then .ok (.loop ⟨out, countOut, stream⟩)
            else if out.length < countOut then .error .thrown
            else .ok (.ret (true, out.take countOut, countOut))

/-- `out.resize(count_in * 16, 0)`. -/
def buffer (countIn : ℕ) : Bytes := List.replicate (wrapSize (countIn * 16)) 0

/-- `ungzip(in, count_in, out, count_out)`, the first `turns` turns. -/
def ungzipFixed (z : Zlib σ) (countIn countOut turns : ℕ) :
    Except Fault (Next (Fixed σ) (Bool × Bytes × ℕ)) :=
  match z.init with
  | none => .ok (.ret (false, buffer countIn, countOut))
  | some stream => run (Fixed.step z) turns ⟨buffer countIn, 0, stream⟩

/-! ### Through a window -/

/-- The size of `v_temp`. -/
def windowSize : ℕ := 4 * 1024

/-- A turn of the loop, on `out` and the stream. -/
def windowedStep (z : Zlib σ) (s : Bytes × σ) : Except Fault (Next (Bytes × σ) (Bool × Bytes)) :=
  match z.inflate s.2 windowSize with
  | (stream, chunk, ret) =>
      if ret.givesUp then .ok (.ret (false, s.1))
      else
        let out := s.1 ++ chunk
        if windowSize - chunk.length = 0 then .ok (.loop (out, stream))
        else .ok (.ret (true, out))

/-- `ungzip(in, out)`, the first `turns` turns. -/
def ungzipWindowed (z : Zlib σ) (turns : ℕ) : Except Fault (Next (Bytes × σ) (Bool × Bytes)) :=
  match z.init with
  | none => .ok (.ret (false, []))
  | some stream => run (windowedStep z) turns ([], stream)

/-! ### A stream with a given output -/

/-- zlib with the output `output`: every call writes the next bytes, as many as there is room
for, and returns no error. -/
def Zlib.ofOutput (output : Bytes) (code : Bytes → ℕ → {r : InflateRet // r.givesUp = false}) :
    Zlib Bytes where
  init := some output
  inflate left availOut := (left.drop availOut, left.take availOut, (code left availOut).1)
  length_le left availOut := List.length_take_le availOut left

section

variable {output : Bytes} {code : Bytes → ℕ → {r : InflateRet // r.givesUp = false}}

/-- `inflate` of a stream with a known output gives as much of it as there is room for. -/
theorem inflate_ofOutput (output : Bytes)
    (code : Bytes → ℕ → {r : InflateRet // r.givesUp = false}) (left : Bytes) (availOut : ℕ) :
    (Zlib.ofOutput output code).inflate left availOut =
      (left.drop availOut, left.take availOut, (code left availOut).1) := rfl

/-- **Through the window the whole output is appended.** -/
theorem returns_windowed (out left : Bytes) :
    Returns (windowedStep (.ofOutput output code)) (out, left) (true, out ++ left) := by
  induction hn : left.length using Nat.strong_induction_on generalizing out left with
  | _ n ih =>
      have hstep : windowedStep (.ofOutput output code) (out, left) =
          if windowSize - (left.take windowSize).length = 0 then
            .ok (.loop (out ++ left.take windowSize, left.drop windowSize))
          else .ok (.ret (true, out ++ left.take windowSize)) := by
        simp [windowedStep, Zlib.ofOutput, (code left windowSize).2]
      have hsize : windowSize = 4096 := rfl
      by_cases hfull : windowSize ≤ left.length
      · rw [if_pos (by rw [List.length_take]; omega)] at hstep
        have hrest := ih (left.drop windowSize).length (by rw [List.length_drop]; omega)
          (out ++ left.take windowSize) (left.drop windowSize) rfl
        rw [List.append_assoc, List.take_append_drop] at hrest
        exact (returns_loop hstep).2 hrest
      · rw [if_neg (by rw [List.length_take]; omega), List.take_of_length_le (by omega)] at hstep
        exact (returns_ret hstep).2 rfl

/-- **The loop with a window returns the output of every stream**, after enough turns. -/
theorem exists_ungzipWindowed (output : Bytes)
    (code : Bytes → ℕ → {r : InflateRet // r.givesUp = false}) :
    ∃ turns, ungzipWindowed (.ofOutput output code) turns = .ok (.ret (true, output)) :=
  returns_windowed [] output

/-! ### Into the buffer -/

/-- A `size_t` is less than `2 ^ 32`. -/
theorem wrapSize_lt (x : ℕ) : wrapSize x < 2 ^ 32 := Nat.mod_lt x (by decide)

/-- A number that fits in a `size_t` is itself. -/
theorem wrapSize_of_lt {x : ℕ} (h : x < 2 ^ 32) : wrapSize x = x := Nat.mod_eq_of_lt h

/-- The buffer has sixteen bytes for each byte of input, as far as a `size_t` can say so. -/
theorem length_buffer (countIn : ℕ) : (buffer countIn).length = wrapSize (countIn * 16) :=
  List.length_replicate

/-- A difference that is not negative is itself. -/
theorem subSize_of_le {x y : ℕ} (hx : x < 2 ^ 32) (h : y ≤ x) : subSize x y = x - y := by
  unfold subSize wrapSize
  omega

/-- Nothing is subtracted. -/
theorem subSize_zero {x : ℕ} (hx : x < 2 ^ 32) : subSize x 0 = x := by
  rw [subSize_of_le hx (Nat.zero_le _), Nat.sub_zero]

/-- A chunk that fits is written at the front of the buffer. -/
theorem writeAt_zero {out chunk : Bytes} (h : chunk.length ≤ out.length) :
    writeAt out 0 chunk = .ok (chunk ++ out.drop chunk.length) := by
  unfold writeAt
  split_ifs with hnil hin
  · simp [hnil]
  · omega
  · simp

/-- Writing does not change the length of the buffer. -/
theorem length_writeAt {out out' chunk : Bytes} {pos : ℕ} (h : writeAt out pos chunk = .ok out') :
    out'.length = out.length := by
  unfold writeAt at h
  split_ifs at h with hnil hin
  · obtain rfl : out = out' := by simpa using h
    rfl
  · obtain rfl : _ = out' := Except.ok.inj h
    rw [List.length_append, List.length_append, List.length_take, List.length_drop]
    omega

/-- **What a turn does**: it writes into the buffer, and then gives up, goes on, or
returns. -/
theorem Fixed.step_cases {z : Zlib σ} {s : Fixed σ} {next : Next (Fixed σ) (Bool × Bytes × ℕ)}
    (h : s.step z = .ok next) :
    ∃ out stream, out.length = s.out.length ∧
      (next = .ret (false, out, s.countOut) ∨ (∃ c, next = .loop ⟨out, c, stream⟩) ∨
        ∃ c, next = .ret (true, out.take c, c)) := by
  unfold Fixed.step at h
  split at h
  rename_i stream chunk ret hinflate
  split at h
  · cases h
  · rename_i out hout
    refine ⟨out, stream, length_writeAt hout, ?_⟩
    simp only at h
    split_ifs at h <;> obtain rfl := Except.ok.inj h
    · exact Or.inl rfl
    · exact Or.inr (Or.inl ⟨_, rfl⟩)
    · exact Or.inr (Or.inr ⟨_, rfl⟩)

/-- The size of the buffer stays, so nothing longer is returned. -/
theorem length_le_of_returns {z : Zlib σ} {s : Fixed σ} {out : Bytes} {countOut : ℕ}
    (h : Returns (Fixed.step z) s (true, out, countOut)) : out.length ≤ s.out.length := by
  refine h.invariant (I := fun t => t.out.length = s.out.length)
    (P := fun r => r.1 = true → r.2.1.length ≤ s.out.length) rfl ?_ ?_ rfl
  · intro a b ha hab
    obtain ⟨out, stream, hlen, hnext | ⟨c, hnext⟩ | ⟨c, hnext⟩⟩ := Fixed.step_cases hab
    · cases hnext
    · obtain rfl : b = _ := Next.loop.inj hnext
      exact hlen.trans ha
    · cases hnext
  · intro a r ha har htrue
    obtain ⟨out, stream, hlen, hnext | ⟨c, hnext⟩ | ⟨c, hnext⟩⟩ := Fixed.step_cases har
    · obtain rfl : r = _ := Next.ret.inj hnext
      cases htrue
    · cases hnext
    · obtain rfl : r = _ := Next.ret.inj hnext
      exact (List.length_take_le' _ _).trans (hlen.trans ha).le

/-- A turn that fills its window goes on. -/
theorem Fixed.step_loop {z : Zlib σ} {s : Fixed σ} {stream : σ} {chunk out : Bytes}
    {ret : InflateRet} (hinflate : z.inflate s.stream s.availOut = (stream, chunk, ret))
    (hwrite : writeAt s.out s.countOut chunk = .ok out) (hret : ret.givesUp = false)
    (hfull : s.availOut - chunk.length = 0) :
    s.step z = .ok (.loop ⟨out, wrapSize (s.countOut + subSize out.length 0), stream⟩) := by
  unfold Fixed.step
  rw [hinflate]
  simp only [hwrite, hret, hfull, Bool.false_eq_true, if_false, if_true]

/-- A turn that does not fill its window returns, if `count_out` is in the buffer. -/
theorem Fixed.step_ret {z : Zlib σ} {s : Fixed σ} {stream : σ} {chunk out : Bytes}
    {ret : InflateRet} (hinflate : z.inflate s.stream s.availOut = (stream, chunk, ret))
    (hwrite : writeAt s.out s.countOut chunk = .ok out) (hret : ret.givesUp = false) {n c : ℕ}
    (havail : s.availOut - chunk.length = n) (hn : n ≠ 0)
    (hc : wrapSize (s.countOut + subSize out.length n) = c) :
    s.step z = if out.length < c then .error .thrown else .ok (.ret (true, out.take c, c)) := by
  unfold Fixed.step
  rw [hinflate]
  simp only [hwrite, hret, havail, hc, Bool.false_eq_true, if_false, if_neg hn]

/-- The first turn, when the output is smaller than the buffer. -/
theorem step_enough {out left : Bytes} (hlen : out.length < 2 ^ 32) (h : left.length < out.length) :
    Fixed.step (.ofOutput output code) ⟨out, 0, left⟩ = .ok (.ret (true, left, left.length)) := by
  have havail : (⟨out, 0, left⟩ : Fixed Bytes).availOut = out.length := subSize_zero hlen
  have hinflate := inflate_ofOutput output code left out.length
  rw [List.take_of_length_le h.le, ← havail] at hinflate
  have hwrite := writeAt_zero h.le
  have hcount : wrapSize (0 + subSize (left ++ out.drop left.length).length
      (out.length - left.length)) = left.length := by
    rw [length_writeAt hwrite, subSize_of_le hlen (Nat.sub_le _ _), Nat.sub_sub_self h.le,
      Nat.zero_add, wrapSize_of_lt (h.trans hlen)]
  have hstep := Fixed.step_ret (s := ⟨out, 0, left⟩) hinflate hwrite (code left _).2
    (n := out.length - left.length) (by rw [havail]) (by omega) hcount
  rw [hstep, length_writeAt hwrite, if_neg (by omega), List.take_left]

/-- The first turn, when the output fills the buffer. -/
theorem step_full {out left : Bytes} (hlen : out.length < 2 ^ 32) (h : left.length = out.length) :
    Fixed.step (.ofOutput output code) ⟨out, 0, left⟩ = .ok (.loop ⟨left, left.length, []⟩) := by
  have havail : (⟨out, 0, left⟩ : Fixed Bytes).availOut = out.length := subSize_zero hlen
  have hinflate := inflate_ofOutput output code left out.length
  rw [List.take_of_length_le h.le, List.drop_of_length_le h.le, ← havail] at hinflate
  have hwrite := writeAt_zero h.le
  rw [h, List.drop_length, List.append_nil] at hwrite
  have hstep := Fixed.step_loop (s := ⟨out, 0, left⟩) hinflate hwrite (code left _).2
    (by rw [havail, h, Nat.sub_self])
  rw [hstep, subSize_zero (h ▸ hlen), Nat.zero_add, wrapSize_of_lt (h ▸ hlen)]

/-- The turn behind it: nothing is written, and the buffer is counted once more. -/
theorem step_again {out : Bytes} (hlen : out.length < 2 ^ 32) :
    Fixed.step (.ofOutput output code) ⟨out, out.length, []⟩ =
      .ok (.loop ⟨out, wrapSize (out.length + out.length), []⟩) := by
  have havail : (⟨out, out.length, []⟩ : Fixed Bytes).availOut = 0 := by
    rw [Fixed.availOut, subSize_of_le hlen le_rfl, Nat.sub_self]
  have hinflate := inflate_ofOutput output code [] 0
  rw [List.take_nil, List.drop_nil, ← havail] at hinflate
  have hstep := Fixed.step_loop (s := ⟨out, out.length, []⟩) hinflate rfl (code [] _).2
    (by rw [havail, Nat.zero_sub])
  rw [hstep, subSize_zero hlen]

/-- The third turn: the room is what is missing of the buffer to the whole range, and
`count_out` becomes four times the size of the buffer. -/
theorem step_third {out : Bytes} (hlen : out.length < 2 ^ 32) (hne : out.length ≠ 0) :
    Fixed.step (.ofOutput output code) ⟨out, wrapSize (out.length + out.length), []⟩ =
      if out.length < wrapSize (4 * out.length) then .error .thrown
      else .ok (.ret (true, out.take (wrapSize (4 * out.length)), wrapSize (4 * out.length))) := by
  have havail : (⟨out, wrapSize (out.length + out.length), []⟩ : Fixed Bytes).availOut =
      2 ^ 32 - out.length := by
    unfold Fixed.availOut subSize wrapSize
    simp only
    omega
  have hcount : wrapSize (wrapSize (out.length + out.length) +
      subSize out.length (2 ^ 32 - out.length)) = wrapSize (4 * out.length) := by
    unfold subSize wrapSize
    omega
  have hinflate := inflate_ofOutput output code [] (2 ^ 32 - out.length)
  rw [List.take_nil, List.drop_nil, ← havail] at hinflate
  exact Fixed.step_ret (s := ⟨out, wrapSize (out.length + out.length), []⟩) hinflate rfl
    (code [] _).2 (n := 2 ^ 32 - out.length) (by rw [havail, List.length_nil, Nat.sub_zero])
    (by omega) hcount

/-- Four times a `size_t` is another one, unless it is zero. -/
theorem ne_wrapSize_four {n : ℕ} (h : n < 2 ^ 32) (hne : n ≠ 0) : n ≠ wrapSize (4 * n) := by
  intro heq
  have hmod : (4 * n - n) % 2 ^ 32 = 0 :=
    Nat.sub_mod_eq_zero_of_mod_eq (heq.symm.trans (Nat.mod_eq_of_lt h).symm)
  have hthree : 4 * n - n = 3 * n := by omega
  rw [hthree] at hmod
  have hdvd : 2 ^ 32 ∣ n :=
    (by decide : Nat.Coprime (2 ^ 32) 3).dvd_of_dvd_mul_left (Nat.dvd_of_mod_eq_zero hmod)
  exact hne (Nat.eq_zero_of_dvd_of_lt hdvd h)

/-- **An output that fills the buffer is not returned**: `count_out` is four times its length
in the end, or the loop never ends. -/
theorem not_returns_full {out left : Bytes} (hlen : out.length < 2 ^ 32)
    (h : left.length = out.length) :
    ¬ Returns (Fixed.step (.ofOutput output code)) ⟨out, 0, left⟩ (true, left, left.length) := by
  by_cases hzero : left.length = 0
  · obtain rfl := List.length_eq_zero_iff.1 hzero
    obtain rfl : out = [] := List.length_eq_zero_iff.1 (h ▸ hzero)
    -- the first turn leads back to itself
    refine not_returns_of_loop (I := (· = ⟨[], 0, []⟩)) rfl ?_
    rintro s rfl
    exact ⟨_, step_full hlen rfl, rfl⟩
  · have hlen' : left.length < 2 ^ 32 := h ▸ hlen
    rw [returns_loop (step_full hlen h), returns_loop (step_again hlen')]
    by_cases hthrow : left.length < wrapSize (4 * left.length)
    · exact not_returns_error ((step_third hlen' hzero).trans (if_pos hthrow))
    · rw [returns_ret ((step_third hlen' hzero).trans (if_neg hthrow))]
      intro hval
      exact ne_wrapSize_four hlen' hzero (congrArg (·.2.2) hval)

/-- The loop with the fixed buffer, on a stream with a known output. -/
theorem ungzipFixed_ofOutput (countIn countOut turns : ℕ) :
    ungzipFixed (.ofOutput output code) countIn countOut turns =
      run (Fixed.step (.ofOutput output code)) turns ⟨buffer countIn, 0, output⟩ := rfl

/-- The windows that are given to `inflate` lie in the buffer. -/
def Inside (z : Zlib σ) (countIn countOut : ℕ) : Prop :=
  ∀ turns s, ungzipFixed z countIn countOut turns = .ok (.loop s) →
    s.countOut + s.availOut ≤ s.out.length

/-- **When the two functions agree and stay in bounds**: when the output is smaller than the
buffer. -/
theorem ungzip_agree_iff (input output : Bytes) (countOut : ℕ)
    (code : Bytes → ℕ → {r : InflateRet // r.givesUp = false}) :
    ((∃ turns, ungzipFixed (.ofOutput output code) input.length countOut turns =
          .ok (.ret (true, output, output.length))) ∧
        (∃ turns, ungzipWindowed (.ofOutput output code) turns = .ok (.ret (true, output))) ∧
        Inside (.ofOutput output code) input.length countOut) ↔
      output.length < wrapSize (input.length * 16) := by
  have hlen := length_buffer input.length
  have hlt : (buffer input.length).length < 2 ^ 32 := hlen ▸ wrapSize_lt _
  rw [← hlen]
  constructor
  · rintro ⟨hfixed, -, -⟩
    have hle := length_le_of_returns hfixed
    refine lt_of_le_of_ne hle fun heq => ?_
    exact not_returns_full hlt heq hfixed
  · intro h
    have hstep : Fixed.step (.ofOutput output code) ⟨buffer input.length, 0, output⟩ =
      .ok (.ret (true, output, output.length)) := step_enough hlt h
    refine ⟨⟨1, run_ret hstep 0⟩, exists_ungzipWindowed output code, fun turns s hs => ?_⟩
    rw [ungzipFixed_ofOutput] at hs
    -- one turn is enough, so the only window is the first one
    cases turns with
    | zero =>
        obtain rfl := reaches_zero hs
        rw [Fixed.availOut, subSize_zero hlt, Nat.zero_add]
    | succ turns =>
        rw [run_ret hstep] at hs
        cases hs

end

/-- An output of 16 bytes fills the buffer for an input of one byte: it is not returned, and
the third window begins at 32. -/
theorem not_ungzip_agree :
    let z := Zlib.ofOutput (List.replicate 16 0) fun _ _ => ⟨.ok, rfl⟩
    (¬ ∃ turns, ungzipFixed z [(0 : UInt8)].length 0 turns =
        .ok (.ret (true, List.replicate 16 0, 16))) ∧
      ∃ turns s, ungzipFixed z [(0 : UInt8)].length 0 turns = .ok (.loop s) ∧
        s.countOut = 32 ∧ s.out.length = 16 ∧ s.out.length < s.countOut + s.availOut := by
  have hsize : (buffer 1).length = (List.replicate 16 (0 : UInt8)).length := rfl
  have hlt : (List.replicate 16 (0 : UInt8)).length < 2 ^ 32 := by decide
  refine ⟨not_returns_full (hsize ▸ hlt) hsize.symm, 2, ⟨List.replicate 16 0, 32, []⟩, ?_, rfl,
    rfl, by decide⟩
  have hcount : wrapSize ((List.replicate 16 (0 : UInt8)).length +
      (List.replicate 16 (0 : UInt8)).length) = 32 := by decide
  rw [List.length_singleton, ungzipFixed_ofOutput, run_loop (step_full (hsize ▸ hlt) hsize.symm),
    run_loop (step_again hlt), hcount]
  rfl

end Gzip
end Scaner
