import Raml.Decimal.Numeral
import Raml.Text.Piece

/-!
# Hosts

The part of an address that names the host. A host in brackets is a numeric address of the sixth
version or of a later one; nothing else may stand in brackets. Outside of them, no character may
stand that becomes a delimiter when it is brought into its compatibility form.
-/

namespace Raml.Host

/-! ## Numeric addresses -/

/-- Whether the characters are `least` to `most` many and all satisfy `p`. -/
def isRun (p : Char → Bool) (least most : Nat) (cs : List Char) : Bool :=
  cs.all p && least ≤ cs.length && cs.length ≤ most

/-- Whether a character is a hexadecimal digit. -/
def isHexDigit (c : Char) : Bool :=
  c.isDigit || ('a' ≤ c && c ≤ 'f') || ('A' ≤ c && c ≤ 'F')

/-- Whether the characters are a number below 256 without a leading zero. -/
def isOctet (cs : List Char) : Bool :=
  isRun Char.isDigit 1 3 cs && (cs == ['0'] || cs.head? != some '0') &&
    (Numeral.natural? 10 cs).any (· < 256)

/-- Whether the characters are four octets between dots. -/
def isQuad (cs : List Char) : Bool :=
  let parts := Text.split '.' cs
  parts.length == 4 && parts.all isOctet

/-- Whether the characters are one of the groups between colons. -/
def isGroup (cs : List Char) : Bool := isRun isHexDigit 1 4 cs

/-- The groups of an address; four octets at the end stand for the last two. -/
def groups? (cs : List Char) : Option (List (List Char)) :=
  let parts := Text.split ':' cs
  match parts.getLast? with
  | none => none
  | some last =>
    if last.contains '.' then
      if isQuad last then some (parts.dropLast ++ [['0'], ['0']]) else none
    else some parts

/-- Where an empty group stands that is neither the first nor the last. -/
def gaps (parts : List (List Char)) : List Nat :=
  (List.range parts.length).filter fun i =>
    0 < i && i + 1 < parts.length && parts[i]? == some []

/-- Whether the characters are an address of the sixth version without a zone. -/
def isPlainAddress (cs : List Char) : Bool :=
  if (Text.split ':' cs).length < 3 then false
  else match groups? cs with
    | none => false
    | some parts =>
      if parts.length > 9 then false
      else match gaps parts with
        | [] => parts.length == 8 && parts.all isGroup
        | [i] =>
          let before := parts.take i
          let after := parts.drop (i + 1)
          let before := if before == [[]] then [] else before
          let after := if after == [[]] then [] else after
          before.all isGroup && after.all isGroup && before.length + after.length < 8
        | _ => false

/-- Whether the characters are an address of the sixth version. -/
def isAddress (cs : List Char) : Bool :=
  match Text.split '%' cs with
  | [address] => isPlainAddress address
  | [address, zone] => !zone.isEmpty && isPlainAddress address
  | _ => false

/-- Whether the characters are an address of a later version. -/
def isFuture (cs : List Char) : Bool :=
  match cs with
  | 'v' :: rest =>
    let version := rest.takeWhile isHexDigit
    match rest.drop version.length with
    | '.' :: _ :: _ => !version.isEmpty
    | _ => false
  | _ => false

/-- Whether the characters may stand in brackets. -/
def isBracketed (cs : List Char) : Bool :=
  if cs.head? == some 'v' then isFuture cs else isAddress cs

/-! ## Names -/

/-- The characters whose compatibility form holds a delimiter. -/
def disguised : List Char :=
  ['⁇', '⁈', '⁉', '℀', '℁', '℅', '℆', '⩴', '︓', '︖', '﹕', '﹖', '﹟', '﹫', '＃', '／', '：', '？', '＠']

/-- What stands after the first opening bracket and before the closing one after it. -/
def inBrackets (cs : List Char) : List Char :=
  ((cs.dropWhile (· != '[')).drop 1).takeWhile (· != ']')

/-- Whether the characters can be the host of an address, with what goes before and after it. -/
def isValid (cs : List Char) : Bool :=
  cs.contains '[' == cs.contains ']' &&
    (!cs.contains '[' || isBracketed (inBrackets cs)) &&
    !cs.any disguised.contains

end Raml.Host
