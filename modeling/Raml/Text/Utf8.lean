import Raml.Text.Quoted

/-!
# Bytes of a text

`encode` writes a text as bytes and `decode` reads it back. When bytes are no text, the `Fault`
says which ones are to blame and why: a byte that starts nothing, a byte that should have gone on
with a character and does not, or an end in the middle of one. The bytes blamed are the longest
start of a character that could still have become one, or a single byte when there is none.
-/

namespace Raml.Text.Utf8

/-- Why bytes are not the bytes of a text. -/
inductive Reason where
  | start
  | continuation
  | ending
  deriving DecidableEq, Repr

/-- The first bytes that are to blame: `length` of them, from `position` on. -/
structure Fault where
  position : Nat
  length : Nat
  first : UInt8
  reason : Reason
  deriving DecidableEq, Repr

/-- The reason in words. -/
def Reason.message : Reason → String
  | .start => "invalid start byte"
  | .continuation => "invalid continuation byte"
  | .ending => "unexpected end of data"

/-- What is wrong, and where. -/
def Fault.message (f : Fault) : String :=
  let what :=
    if f.length = 1 then
      "byte 0x" ++ String.ofList (Quoted.hex 2 f.first.toNat) ++
        " in position " ++ toString f.position
    else
      "bytes in position " ++ toString f.position ++ "-" ++ toString (f.position + f.length - 1)
  "'utf-8' codec can't decode " ++ what ++ ": " ++ f.reason.message

/-- The bytes of one character. -/
def encodeChar (c : Char) : List UInt8 :=
  let n := c.toNat
  let tail (k : Nat) : UInt8 := UInt8.ofNat (0x80 + n / Nat.pow 64 k % 64)
  if n < 0x80 then [UInt8.ofNat n]
  else if n < 0x800 then [UInt8.ofNat (0xc0 + n / 64), tail 0]
  else if n < 0x10000 then [UInt8.ofNat (0xe0 + n / 4096), tail 1, tail 0]
  else [UInt8.ofNat (0xf0 + n / 262144), tail 2, tail 1, tail 0]

/-- The bytes of a text. -/
def encode (s : String) : List UInt8 := s.toList.flatMap encodeChar

/--
What a first byte announces: how many bytes follow, the bits it carries, and the range that the
byte after it has to lie in. The range is narrower than `0x80` to `0xbf` where a wider one would
admit a longer form than needed, a surrogate, or a number past the last code point.
-/
def lead? (b : UInt8) : Option (Nat × Nat × Nat × Nat) :=
  let n := b.toNat
  if n < 0x80 then some (0, n, 0x80, 0xbf)
  else if 0xc2 ≤ n && n ≤ 0xdf then some (1, n - 0xc0, 0x80, 0xbf)
  else if n = 0xe0 then some (2, 0, 0xa0, 0xbf)
  else if n = 0xed then some (2, 0x0d, 0x80, 0x9f)
  else if 0xe1 ≤ n && n ≤ 0xef then some (2, n - 0xe0, 0x80, 0xbf)
  else if n = 0xf0 then some (3, 0, 0x90, 0xbf)
  else if n = 0xf4 then some (3, 4, 0x80, 0x8f)
  else if 0xf1 ≤ n && n ≤ 0xf3 then some (3, n - 0xf0, 0x80, 0xbf)
  else none

/--
The bytes that go on with a character: `need` of them, the first between `low` and `high`. Gives
the finished number and what follows, or how many bytes fitted and why the next does not.
-/
def continue? (need low high number taken : Nat) :
    List UInt8 → Except (Nat × Reason) (Nat × List UInt8)
  | [] => if need = 0 then .ok (number, []) else .error (taken, .ending)
  | b :: bs =>
    match need with
    | 0 => .ok (number, b :: bs)
    | n + 1 =>
      if low ≤ b.toNat && b.toNat ≤ high then
        continue? n 0x80 0xbf (number * 64 + (b.toNat - 0x80)) (taken + 1) bs
      else .error (taken, .continuation)

theorem length_le_of_continue? {need low high number taken n : Nat} {bs rest : List UInt8}
    (h : continue? need low high number taken bs = .ok (n, rest)) : rest.length ≤ bs.length := by
  induction bs generalizing need low high number taken with
  | nil =>
    unfold continue? at h
    split at h
    · cases h; simp
    · cases h
  | cons b bs ih =>
    unfold continue? at h
    split at h
    · cases h; simp
    · split at h
      · exact Nat.le_succ_of_le (ih h)
      · cases h

/-- Reading from `position` on. -/
def decodeFrom (position : Nat) (bs : List UInt8) : Except Fault (List Char) :=
  match bs with
  | [] => .ok []
  | b :: rest =>
    match lead? b with
    | none => .error ⟨position, 1, b, .start⟩
    | some (need, bits, low, high) =>
      match h : continue? need low high bits 1 rest with
      | .error (taken, reason) => .error ⟨position, taken, b, reason⟩
      | .ok (n, after) =>
        have := length_le_of_continue? h
        (decodeFrom (position + need + 1) after).map (Char.ofNat n :: ·)
  termination_by bs.length
  decreasing_by simp_wf; omega

/-- The text that the bytes stand for. -/
def decode (bs : List UInt8) : Except Fault String := (decodeFrom 0 bs).map String.ofList

end Raml.Text.Utf8
