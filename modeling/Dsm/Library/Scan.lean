import Mathlib.Data.List.TakeWhile
import Mathlib.Data.Nat.Digits.Lemmas

/-!
# Formatted text, printed and scanned

The conversions `%s` and `%d` of `printf`, and `%d` and `%w[^c]` of `scanf`, on strings of bytes. A
printed text is a list of pieces, the ordinary characters and the arguments of the conversions; a scan
format is a list of directives, and scanning yields the values of the conversions that succeed before
the first failure.

A scan format reads back what was printed where every conversion knows its end: a string does not
contain the character that stops it and is followed by it, and a number is not followed by a digit
(`scan_print`).
-/

namespace Scan

/-- The bytes of a text in ASCII. -/
def ascii (s : String) : List UInt8 := s.toList.map fun c => UInt8.ofNat c.toNat

/-- A part of a printed text. -/
inductive Piece where
  | text (t : List UInt8)
  /-- An argument of `%s`, without its terminator. -/
  | str (s : List UInt8)
  /-- An argument of `%d`. -/
  | int (n : Int32)
deriving DecidableEq

inductive Directive where
  /-- Ordinary characters, none of them white space. -/
  | text (t : List UInt8)
  /-- `%w[^c]`. -/
  | set (width : Nat) (stop : UInt8)
  /-- `%d`. -/
  | int
deriving DecidableEq

inductive Value where
  | str (s : List UInt8)
  | int (n : Int32)
deriving DecidableEq

/-! ### Printing -/

def digitByte (d : Nat) : UInt8 := UInt8.ofNat (48 + d)

def decimal (n : Nat) : List UInt8 :=
  if n = 0 then [digitByte 0] else (Nat.digits 10 n).reverse.map digitByte

def printInt (n : Int32) : List UInt8 :=
  if n.toInt < 0 then 45 :: decimal n.toInt.natAbs else decimal n.toInt.natAbs

def Piece.bytes : Piece → List UInt8
  | .text t => t
  | .str s => s
  | .int n => printInt n

def print (ps : List Piece) : List UInt8 := ps.flatMap Piece.bytes

/-- The string that `snprintf` leaves in a buffer of `size` bytes. -/
def snprintf (size : Nat) (ps : List Piece) : List UInt8 := (print ps).take (size - 1)

/-! ### Scanning -/

def isDigit (b : UInt8) : Bool := 48 ≤ b && b ≤ 57

/-- `isspace` in the C locale. -/
def isSpace (b : UInt8) : Bool := b == 32 || (9 ≤ b && b ≤ 13)

def number (ds : List UInt8) : Nat := Nat.ofDigits 10 (ds.reverse.map fun b => b.toNat - 48)

/-- The `int` that `%d` stores: the number is read as a 64-bit `long`, which is saturated. -/
def storedInt (n : Int) : Int32 := Int32.ofInt (max (-2 ^ 63) (min n (2 ^ 63 - 1)))

/-- The sign in front of a number. -/
def scanSign : List UInt8 → Bool × List UInt8
  | [] => (false, [])
  | b :: bs => if b = 45 then (true, bs) else if b = 43 then (false, bs) else (false, b :: bs)

def scanInt (input : List UInt8) : Option (Int32 × List UInt8) :=
  let (negative, rest) := scanSign (input.dropWhile isSpace)
  let ds := rest.takeWhile isDigit
  if ds = [] then none
  else
    some (storedInt (if negative then -(number ds : Int) else number ds), rest.dropWhile isDigit)

def scanSet (width : Nat) (stop : UInt8) (input : List UInt8) : Option (List UInt8 × List UInt8) :=
  let s := (input.take width).takeWhile (· != stop)
  if s = [] then none else some (s, input.drop s.length)

/-- The values that are converted before the first failure. -/
def scan : List Directive → List UInt8 → List Value
  | [], _ => []
  | .text t :: ds, input => if t.isPrefixOf input then scan ds (input.drop t.length) else []
  | .set width stop :: ds, input =>
      match scanSet width stop input with
      | some (s, rest) => .str s :: scan ds rest
      | none => []
  | .int :: ds, input =>
      match scanInt input with
      | some (n, rest) => .int n :: scan ds rest
      | none => []

/-- `sscanf` on the string in a buffer. -/
def sscanf (ds : List Directive) (buf : List UInt8) : List Value := scan ds (buf.takeWhile (· != 0))

/-! ### Numbers -/

theorem toNat_digitByte {d : Nat} (hd : d < 10) : (digitByte d).toNat = 48 + d := by
  rw [digitByte, UInt8.toNat_ofNat']
  exact Nat.mod_eq_of_lt (by omega)

theorem isDigit_digitByte {d : Nat} (hd : d < 10) : isDigit (digitByte d) = true := by
  rw [isDigit, Bool.and_eq_true, decide_eq_true_eq, decide_eq_true_eq, UInt8.le_iff_toNat_le,
    UInt8.le_iff_toNat_le, toNat_digitByte hd]
  exact ⟨Nat.le_add_right 48 d, show 48 + d ≤ 57 by omega⟩

theorem isDigit_of_mem_decimal {n : Nat} {b : UInt8} (hb : b ∈ decimal n) : isDigit b = true := by
  unfold decimal at hb
  split at hb
  · rw [List.mem_singleton.mp hb]
    exact isDigit_digitByte (by decide)
  · obtain ⟨d, hd, rfl⟩ := List.mem_map.mp hb
    exact isDigit_digitByte (Nat.digits_lt_base (by decide) (List.mem_reverse.mp hd))

theorem decimal_ne_nil (n : Nat) : decimal n ≠ [] := by
  unfold decimal
  split
  · simp
  · rw [ne_eq, List.map_eq_nil_iff, List.reverse_eq_nil_iff]
    exact Nat.digits_ne_nil_iff_ne_zero.mpr ‹n ≠ 0›

theorem number_decimal (n : Nat) : number (decimal n) = n := by
  unfold decimal
  split
  · rw [‹n = 0›]
    rfl
  · have hdigits : ((Nat.digits 10 n).map digitByte).map (fun b => b.toNat - 48) = Nat.digits 10 n := by
      rw [List.map_map]
      refine (List.map_congr_left fun d hd => ?_).trans (List.map_id _)
      rw [Function.comp_apply, toNat_digitByte (Nat.digits_lt_base (by decide) hd)]
      exact Nat.add_sub_cancel_left 48 d
    rw [number, ← List.map_reverse, List.reverse_reverse, hdigits]
    exact Nat.ofDigits_digits 10 n

theorem length_decimal_le {n k : Nat} (hk : 0 < k) (hn : n < 10 ^ k) : (decimal n).length ≤ k := by
  unfold decimal
  split
  · exact hk
  · rw [List.length_map, List.length_reverse]
    exact (Nat.digits_length_le_iff (by decide) n).mpr hn

theorem length_printInt_le (n : Int32) : (printInt n).length ≤ 11 := by
  have hlow := n.le_toInt
  have hhigh := n.toInt_lt
  have hdigits : (decimal n.toInt.natAbs).length ≤ 10 := length_decimal_le (by decide) (by omega)
  unfold printInt
  split
  · exact Nat.succ_le_succ hdigits
  · exact hdigits.trans (by decide)

theorem storedInt_toInt (n : Int32) : storedInt n.toInt = n := by
  have hlow := n.le_toInt
  have hhigh := n.toInt_lt
  rw [storedInt, min_eq_left (by omega), max_eq_right (by omega), Int32.ofInt_toInt]

theorem scanSign_of_isDigit {b : UInt8} {bs : List UInt8} (hb : isDigit b = true) :
    isSpace b = false ∧ scanSign (b :: bs) = (false, b :: bs) := by
  rw [isDigit, Bool.and_eq_true, decide_eq_true_eq, decide_eq_true_eq] at hb
  have hrange : 48 ≤ b.toNat ∧ b.toNat ≤ 57 := hb
  have hne : ∀ c : UInt8, c.toNat < 48 → b ≠ c := fun c hc heq => by
    rw [heq] at hrange
    omega
  constructor
  · have hnot : ¬ b ≤ 13 := fun hle => by
      have hle' : b.toNat ≤ 13 := hle
      omega
    simp [isSpace, hne 32 (by decide), hnot]
  · simp [scanSign, hne 45 (by decide), hne 43 (by decide)]

theorem scanInt_printInt (n : Int32) {rest : List UInt8} (hrest : ∀ b ∈ rest.head?, isDigit b = false) :
    scanInt (printInt n ++ rest) = some (n, rest) := by
  have htake : ∀ k, (decimal k ++ rest).takeWhile isDigit = decimal k := by
    intro k
    rw [List.takeWhile_append_of_pos fun b hb => isDigit_of_mem_decimal hb]
    cases rest with
    | nil => simp
    | cons b bs => simp [hrest b rfl]
  have hdrop : ∀ k, (decimal k ++ rest).dropWhile isDigit = rest := by
    intro k
    rw [List.dropWhile_append_of_pos fun b hb => isDigit_of_mem_decimal hb]
    cases rest with
    | nil => rfl
    | cons b bs => simp [hrest b rfl]
  unfold printInt
  split
  · rename_i hneg
    have habs : -(n.toInt.natAbs : Int) = n.toInt := by omega
    have hspace : isSpace 45 = false := by decide
    simp only [scanInt, List.cons_append, List.dropWhile_cons, hspace, Bool.false_eq_true, if_false,
      scanSign, if_true, htake, hdrop, decimal_ne_nil, number_decimal, habs, storedInt_toInt]
  · rename_i hpos
    have habs : (n.toInt.natAbs : Int) = n.toInt := by omega
    obtain ⟨b, bs, hcons⟩ := List.exists_cons_of_ne_nil (decimal_ne_nil n.toInt.natAbs)
    have hdigit : isDigit b = true :=
      isDigit_of_mem_decimal (n := n.toInt.natAbs) (hcons ▸ List.mem_cons_self)
    have hsign : scanSign ((decimal n.toInt.natAbs ++ rest).dropWhile isSpace) =
        (false, decimal n.toInt.natAbs ++ rest) := by
      obtain ⟨hspace, hread⟩ : isSpace b = false ∧ scanSign (b :: (bs ++ rest)) =
        (false, b :: (bs ++ rest)) := scanSign_of_isDigit hdigit
      rw [hcons, List.cons_append, List.dropWhile_cons_of_neg (by rw [hspace]; decide), hread]
    simp only [scanInt, hsign, htake, hdrop, decimal_ne_nil, if_false, number_decimal,
      Bool.false_eq_true, habs, storedInt_toInt]

/-! ### What a format reads of what another printed -/

theorem scanSet_append {width : Nat} {stop : UInt8} {s rest : List UInt8} (hs : s ≠ [])
    (hwidth : s.length ≤ width) (hstop : stop ∉ s) :
    scanSet width stop (s ++ stop :: rest) = some (s, stop :: rest) := by
  have htake : ((s ++ stop :: rest).take width).takeWhile (· != stop) = s := by
    obtain ⟨k, rfl⟩ := Nat.exists_eq_add_of_le hwidth
    rw [List.take_length_add_append, List.takeWhile_append_of_pos]
    · cases k with
      | zero => simp
      | succ k => simp
    · intro b hb
      rw [bne_iff_ne]
      rintro rfl
      exact hstop hb
  simp only [scanSet, htake, if_neg hs, List.drop_left]

theorem scan_text_append (t rest : List UInt8) (ds : List Directive) :
    scan (.text t :: ds) (t ++ rest) = scan ds rest := by
  rw [scan, if_pos (List.isPrefixOf_iff_prefix.mpr (List.prefix_append t rest)), List.drop_left]

theorem scan_text_of_not_prefix {t input : List UInt8} (hnot : ¬ t <+: input) (ds : List Directive) :
    scan (.text t :: ds) input = [] := by
  rw [scan, if_neg fun hpre => hnot (List.isPrefixOf_iff_prefix.mp hpre)]

/-- The conversions of the format are those of the text, and each knows its end. -/
inductive Reads : List Directive → List Piece → Prop where
  | nil : Reads [] []
  | text {ds : List Directive} {ps : List Piece} (t : List UInt8) (h : Reads ds ps) :
      Reads (.text t :: ds) (.text t :: ps)
  | str {ds : List Directive} {ps : List Piece} {width : Nat} {stop : UInt8} {s t : List UInt8}
      (hs : s ≠ []) (hwidth : s.length ≤ width) (hstop : stop ∉ s)
      (h : Reads ds (.text (stop :: t) :: ps)) :
      Reads (.set width stop :: ds) (.str s :: .text (stop :: t) :: ps)
  | int {ds : List Directive} {ps : List Piece} (n : Int32)
      (hnext : ∀ b ∈ (print ps).head?, isDigit b = false) (h : Reads ds ps) :
      Reads (.int :: ds) (.int n :: ps)

/-- The argument that a piece prints. -/
def Piece.value? : Piece → Option Value
  | .text _ => none
  | .str s => some (.str s)
  | .int n => some (.int n)

theorem scan_print {ds : List Directive} {ps : List Piece} (h : Reads ds ps) :
    scan ds (print ps) = ps.filterMap Piece.value? := by
  induction h with
  | nil => rfl
  | @text ds ps t h ih => exact (scan_text_append t (print ps) ds).trans ih
  | @str ds ps width stop s t hs hwidth hstop h ih =>
      have hset : scanSet width stop (print (.str s :: .text (stop :: t) :: ps)) =
          some (s, print (.text (stop :: t) :: ps)) := scanSet_append hs hwidth hstop
      rw [scan, hset]
      exact congrArg (Value.str s :: ·) ih
  | @int ds ps n hnext h ih =>
      have hint : scanInt (print (.int n :: ps)) = some (n, print ps) := scanInt_printInt n hnext
      rw [scan, hint]
      exact congrArg (Value.int n :: ·) ih

theorem zero_not_mem_decimal (n : Nat) : (0 : UInt8) ∉ decimal n := fun hmem => by
  cases isDigit_of_mem_decimal hmem

theorem zero_not_mem_printInt (n : Int32) : (0 : UInt8) ∉ printInt n := by
  unfold printInt
  split
  · rw [List.mem_cons, not_or]
    exact ⟨by decide, zero_not_mem_decimal _⟩
  · exact zero_not_mem_decimal _

theorem sscanf_eq_scan {buf : List UInt8} (h : (0 : UInt8) ∉ buf) (ds : List Directive) :
    sscanf ds buf = scan ds buf := by
  rw [sscanf, List.takeWhile_eq_self_iff.mpr]
  intro b hb
  rw [bne_iff_ne]
  rintro rfl
  exact h hb

theorem snprintf_of_length_lt {size : Nat} {ps : List Piece} (h : (print ps).length < size) :
    snprintf size ps = print ps :=
  List.take_of_length_le (Nat.le_sub_one_of_lt h)

end Scan
