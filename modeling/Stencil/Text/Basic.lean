/-!
Texts are lists of characters: whatever reads one walks it from the front, and a law about a
text is an induction on a list. The operations below cut a text in two, and the lemma after each
one says that nothing is lost at the cut.
-/

set_option autoImplicit false

namespace Stencil

abbrev Text := List Char

instance : Coe String Text := ⟨String.toList⟩

def asciiByte (c : Char) : UInt8 := UInt8.ofNat c.toNat

namespace Text

/-- Cuts a text where the rest first satisfies `stop`. -/
def splitWhen (stop : Text → Bool) : Text → Text × Text
  | [] => ([], [])
  | c :: r =>
    if stop (c :: r) then ([], c :: r)
    else (c :: (splitWhen stop r).1, (splitWhen stop r).2)

theorem splitWhen_append (stop : Text → Bool) (t : Text) :
    (splitWhen stop t).1 ++ (splitWhen stop t).2 = t := by
  induction t with
  | nil => rfl
  | cons c r ih => by_cases h : stop (c :: r) <;> simp [splitWhen, h, ih]

theorem splitWhen_rest (stop : Text → Bool) (t : Text) :
    (splitWhen stop t).2 = [] ∨ stop (splitWhen stop t).2 = true := by
  induction t with
  | nil => exact .inl rfl
  | cons c r ih => by_cases h : stop (c :: r) <;> simp [splitWhen, h, ih]

theorem length_splitWhen_le (stop : Text → Bool) (t : Text) :
    (splitWhen stop t).2.length ≤ t.length := by
  have h := congrArg List.length (splitWhen_append stop t)
  simp only [List.length_append] at h
  omega

/-- Cuts a text around the first occurrence of `mark`, which goes to neither side. -/
def cut (mark : Text) : Text → Option (Text × Text)
  | [] => if mark = [] then some ([], []) else none
  | c :: r =>
    match mark.isPrefixOf? (c :: r) with
    | some rest => some ([], rest)
    | none => (cut mark r).map fun (before, rest) => (c :: before, rest)

theorem eq_append_of_isPrefixOf? {mark t rest : Text} (h : mark.isPrefixOf? t = some rest) :
    t = mark ++ rest := by
  induction mark generalizing t with
  | nil => exact Option.some.inj h
  | cons m mark ih =>
    cases t with
    | nil => cases h
    | cons c t =>
      change (if m == c then mark.isPrefixOf? t else none) = some rest at h
      split at h
      next hm => simp [ih h, LawfulBEq.eq_of_beq hm]
      next => simp at h

theorem eq_of_cut {mark t before rest : Text} (h : cut mark t = some (before, rest)) :
    t = before ++ mark ++ rest := by
  induction t generalizing before with
  | nil =>
    simp only [cut] at h
    split at h <;> simp_all
  | cons c r ih =>
    simp only [cut] at h
    split at h
    next _ hm => simp_all [eq_append_of_isPrefixOf? hm]
    next =>
      obtain ⟨⟨b, s⟩, hr, he⟩ := Option.map_eq_some_iff.1 h
      simp only [Prod.mk.injEq] at he
      obtain ⟨rfl, rfl⟩ := he
      simp [ih hr]

/-- The pieces of a text between the occurrences of a character: one more than there are
occurrences. -/
def pieces (separator : Char) : Text → List Text
  | [] => [[]]
  | c :: r =>
    if c = separator then [] :: pieces separator r
    else match pieces separator r with
      | [] => [[c]]
      | p :: ps => (c :: p) :: ps

def after? (mark t : Text) : Option Text := mark.isPrefixOf? t

def before? (mark t : Text) : Option Text :=
  (mark.reverse.isPrefixOf? t.reverse).map List.reverse

def bytes : Text → Nat
  | [] => 0
  | c :: t => c.utf8Size + bytes t

@[simp] theorem bytes_append (s t : Text) : bytes (s ++ t) = bytes s + bytes t := by
  induction s with
  | nil => simp [bytes]
  | cons c s ih => simp [bytes, ih, Nat.add_assoc]

def utf8 (t : Text) : List UInt8 := t.flatMap String.utf8EncodeChar

def breaks (t : Text) : Nat := t.count '\n'

@[simp] theorem breaks_append (s t : Text) : breaks (s ++ t) = breaks s + breaks t := by
  simp [breaks]

def ofNat (n : Nat) : Text := Nat.toDigits 10 n

def ofInt : Int → Text
  | .ofNat n => ofNat n
  | .negSucc n => '-' :: ofNat (n + 1)

def natural? (t : Text) : Option Nat :=
  let ds := match t with
    | '+' :: r => r
    | _ => t
  if ds.isEmpty || !ds.all Char.isDigit then none
  else
    let n := ds.foldl (fun n d => 10 * n + (d.toNat - 48)) 0
    if n < Nat.pow 2 64 then some n else none

def join (separator : Text) (ts : List Text) : Text := separator.intercalate ts

end Text

end Stencil
