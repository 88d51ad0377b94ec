/-!
# Texts

A text is a list of characters, so that every rule of the library is a recursion
over its characters. Here are the operations the rest is built from:

* `cut p`: the pieces between the characters that satisfy `p`; `join_cut` says
  that joining them with the character cut at gives the text back;
* `dropEnd p`: the text without its longest ending of characters in `p`;
* `occursIn k`: whether `k` stands somewhere in a text (`occursIn_iff`).
-/

namespace SqlScribe

/-- A text: its characters in order. -/
abbrev Text := List Char

/-- A quoted string is read as the text it spells. -/
instance coeOfString : Coe String (List Char) := ⟨String.toList⟩

namespace Text

/-- What holds of all characters of a text is found out by going through the text. -/
instance (priority := 2000) decidableForall {p : Char → Prop} [DecidablePred p] (t : Text) :
    Decidable (∀ c ∈ t, p c) :=
  List.decidableBAll p t

/-! ## Cutting and joining -/

/-- The pieces of a text between the characters that satisfy `p`, empty pieces kept. -/
def cut (p : Char → Bool) : Text → List Text
  | [] => [[]]
  | c :: t =>
      if p c then [] :: cut p t
      else
        match cut p t with
        | [] => [[c]]
        | s :: ss => (c :: s) :: ss

/-- The pieces, with `sep` between neighbours. -/
def join (sep : Text) : List Text → Text
  | [] => []
  | [s] => s
  | s :: ss => s ++ sep ++ join sep ss

theorem cut_ne_nil (p : Char → Bool) (t : Text) : cut p t ≠ [] := by
  induction t with
  | nil => simp [cut]
  | cons c t ih =>
    unfold cut
    split
    · simp
    · split <;> simp

/-- Cutting at one character and joining with it gives the text back. -/
theorem join_cut (d : Char) (t : Text) : join [d] (cut (· == d) t) = t := by
  induction t with
  | nil => rfl
  | cons c t ih =>
    unfold cut
    have hne := cut_ne_nil (· == d) t
    split
    · next h =>
      obtain ⟨s, ss, hs⟩ := List.exists_cons_of_ne_nil hne
      rw [hs] at ih ⊢
      simp_all [join]
    · split
      · next h => exact absurd h hne
      · next s ss hs =>
        rw [hs] at ih
        cases ss <;> simp_all [join]

/-! ## Beginnings and endings -/

/-- The text without its longest ending of characters in `p`. -/
def dropEnd (p : Char → Bool) (t : Text) : Text :=
  (t.reverse.dropWhile p).reverse

/-- Whether `t` begins with `p`. -/
def startsWith (t p : Text) : Bool := p.isPrefixOf t

/-- Whether `t` ends in `e`. -/
def endsWith (t e : Text) : Bool := e.reverse.isPrefixOf t.reverse

/-! ## Searching -/

/-- Whether `k` stands somewhere in the text. -/
def occursIn (k : Text) : Text → Bool
  | [] => k.isEmpty
  | c :: t => k.isPrefixOf (c :: t) || occursIn k t

/-- A text occurs in another exactly when it is one of its infixes. -/
theorem occursIn_iff {k t : Text} : occursIn k t = true ↔ k <:+: t := by
  induction t with
  | nil => simp [occursIn, List.isEmpty_iff]
  | cons c t ih =>
    rw [occursIn, Bool.or_eq_true, ih, List.isPrefixOf_iff_prefix, List.infix_cons_iff]

/-! ## Sizes -/

/-- The number of bytes the text takes in UTF-8. -/
def utf8Size : Text → Nat
  | [] => 0
  | c :: t => c.utf8Size + utf8Size t

/-- Whether every character is an ASCII character. -/
def isAscii (t : Text) : Bool := t.all fun c => c.toNat < 128

/-! ## ASCII case -/

/-- The text with its ASCII letters in capitals. -/
def asciiUpper (t : Text) : Text := t.map Char.toUpper

/-- The text with its ASCII letters in lower case. -/
def asciiLower (t : Text) : Text := t.map Char.toLower

/-! ## Whole numbers -/

/-- The decimal digits of a natural number. -/
def ofNat (n : Nat) : Text := Nat.toDigits 10 n

/-- A whole number in decimal, with a minus sign when it is negative. -/
def ofInt (n : Int) : Text :=
  if n < 0 then '-' :: ofNat n.natAbs else ofNat n.natAbs

/-- The number that ASCII digits spell, `none` when another character is among
them or there are none. -/
def toNat? (t : Text) : Option Nat :=
  if t.isEmpty || !t.all Char.isDigit then none
  else some (t.foldl (fun n c => 10 * n + (c.toNat - 48)) 0)

/-- The number that ASCII digits spell, when it is at most `max`. -/
def toNatUpTo? (max : Nat) (t : Text) : Option Nat :=
  (toNat? t).filter (· ≤ max)

end Text

end SqlScribe
