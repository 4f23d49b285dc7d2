import PdsBackup.Core.Regex

/-!
# The text of regular expressions

A reader for the ECMAScript notation `std::regex` is constructed from:
alternatives, sequences, greedy and lazy quantifiers, capturing and other
groups, lookahead, anchors, bracket expressions with ranges, and escapes.
`none` is the `regex_error` an unreadable text raises.

The last part treats texts whose characters are all taken literally, save that
a `.` stands for any character: such a text matches itself, and in one way only.
-/

namespace PdsBackup

namespace Regex

def escapedSet (c : Char) : Option CharSet :=
  match c with
  | 'w' => some ⟨false, [.word]⟩
  | 'W' => some ⟨true, [.word]⟩
  | 'd' => some ⟨false, [.digit]⟩
  | 'D' => some ⟨true, [.digit]⟩
  | 's' => some ⟨false, [.space]⟩
  | 'S' => some ⟨true, [.space]⟩
  | _ => if c.isAlphanum then none else some (.single c)

/-- The items of a bracket expression up to its `]`, and what follows it. -/
def readItems : Nat → Text → Option (List ClassItem × Text)
  | 0, _ => none
  | _ + 1, [] => none
  | fuel + 1, first :: rest =>
      if first = ']' then some ([], rest)
      else
        match first, rest with
        | '\\', c :: rest => do
            let set ← escapedSet c
            if set.negated then none
            let (items, rest) ← readItems fuel rest
            some (set.items ++ items, rest)
        | _, '-' :: last :: after =>
            if last = ']' then do
              let (items, rest) ← readItems fuel rest
              some (.single first :: items, rest)
            else if first ≤ last then do
              let (items, rest) ← readItems fuel after
              some (.range first last :: items, rest)
            else none
        | _, _ => do
            let (items, rest) ← readItems fuel rest
            some (.single first :: items, rest)

def readNumber (text : Text) : Option (Nat × Text) :=
  match text.takeWhile Char.isDigit with
  | [] => none
  | digits =>
      some (digits.foldl (fun value d => 10 * value + (d.toNat - '0'.toNat)) 0,
        text.dropWhile Char.isDigit)

/-- The bounds of an interval `{n}`, `{n,}` or `{n,m}` after its `{`. -/
def readInterval (text : Text) : Option (Nat × Option Nat × Text) := do
  let (least, rest) ← readNumber text
  match rest with
  | '}' :: rest => some (least, some least, rest)
  | ',' :: '}' :: rest => some (least, none, rest)
  | ',' :: rest =>
      let (most, rest) ← readNumber rest
      match rest with
      | '}' :: rest => if least ≤ most then some (least, some most, rest) else none
      | _ => none
  | _ => none

/-- The quantifiers that follow an atom, each of which repeats all before it. -/
def readQuantifiers : Nat → Expr → Text → Option (Expr × Text)
  | 0, _, _ => none
  | fuel + 1, atom, text => do
      let bounds : Option (Nat × Option Nat × Text) ←
        match text with
        | '*' :: rest => some (some (0, none, rest))
        | '+' :: rest => some (some (1, none, rest))
        | '?' :: rest => some (some (0, some 1, rest))
        | '{' :: rest => (readInterval rest).map some
        | _ => some none
      match bounds with
      | none => some (atom, text)
      | some (least, most, '?' :: rest) =>
          readQuantifiers fuel (.repetition least most false atom) rest
      | some (least, most, rest) =>
          readQuantifiers fuel (.repetition least most true atom) rest

mutual

/-- Alternatives up to a closing parenthesis or the end.  The number is that of
the next capturing group. -/
def readAlternatives : Nat → Nat → Text → Option (Expr × Nat × Text)
  | 0, _, _ => none
  | fuel + 1, index, text => do
      let (left, index, rest) ← readSequence fuel index text
      match rest with
      | '|' :: rest =>
          let (right, index, rest) ← readAlternatives fuel index rest
          some (.alt left right, index, rest)
      | _ => some (left, index, rest)

def readSequence : Nat → Nat → Text → Option (Expr × Nat × Text)
  | 0, _, _ => none
  | _ + 1, index, [] => some (.empty, index, [])
  | fuel + 1, index, c :: rest =>
      if c = '|' ∨ c = ')' then some (.empty, index, c :: rest)
      else do
        let (term, index, rest) ← readTerm fuel index c rest
        let (terms, index, rest) ← readSequence fuel index rest
        some (.seq term terms, index, rest)

/-- The term that begins with the given character, with its quantifiers. -/
def readTerm : Nat → Nat → Char → Text → Option (Expr × Nat × Text)
  | 0, _, _, _ => none
  | fuel + 1, index, c, rest =>
      match c, rest with
      | '^', _ => some (.inputStart, index, rest)
      | '$', _ => some (.inputEnd, index, rest)
      | '(', '?' :: ':' :: inner => do
          let (body, index, rest) ← readAlternatives fuel index inner
          let rest ← closing rest
          let (term, rest) ← readQuantifiers fuel body rest
          some (term, index, rest)
      | '(', '?' :: '=' :: inner => do
          let (body, index, rest) ← readAlternatives fuel index inner
          let rest ← closing rest
          some (.lookahead false body, index, rest)
      | '(', '?' :: '!' :: inner => do
          let (body, index, rest) ← readAlternatives fuel index inner
          let rest ← closing rest
          some (.lookahead true body, index, rest)
      | '(', _ => do
          let (body, next, rest) ← readAlternatives fuel (index + 1) rest
          let rest ← closing rest
          let (term, rest) ← readQuantifiers fuel (.group index body) rest
          some (term, next, rest)
      | '[', '^' :: inner => do
          let (items, rest) ← readItems fuel inner
          let (term, rest) ← readQuantifiers fuel (.chars ⟨true, items⟩) rest
          some (term, index, rest)
      | '[', _ => do
          let (items, rest) ← readItems fuel rest
          let (term, rest) ← readQuantifiers fuel (.chars ⟨false, items⟩) rest
          some (term, index, rest)
      | '\\', c :: rest => do
          let set ← escapedSet c
          let (term, rest) ← readQuantifiers fuel (.chars set) rest
          some (term, index, rest)
      | '.', _ => do
          let (term, rest) ← readQuantifiers fuel (.chars .notTerminator) rest
          some (term, index, rest)
      | _, _ =>
          if c ∈ ['*', '+', '?', '{', '\\'] then none
          else do
            let (term, rest) ← readQuantifiers fuel (.chars (.single c)) rest
            some (term, index, rest)
where
  closing : Text → Option Text
    | ')' :: rest => some rest
    | _ => none

end

/-- The expression a text denotes.  Each nesting level and each character of
the text takes up at most three calls of the reader. -/
def compile (text : Text) : Option Expr :=
  match readAlternatives (3 * text.length + 3) 1 text with
  | some (expr, _, []) => some expr
  | _ => none

/-! ## Texts read literally -/

/-- The characters that keep the reader from taking a text literally.  A `.` is
not among them: it stands for one character, possibly another one. -/
def operators : List Char := ['^', '$', '\\', '*', '+', '?', '(', ')', '[', '{', '|']

/-- A text that denotes a sequence of single characters. -/
def Literal (text : Text) : Prop := ∀ c ∈ text, c ∉ operators

instance (text : Text) : Decidable (Literal text) :=
  List.decidableBAll (fun c => c ∉ operators) text

def literalSet (c : Char) : CharSet := if c = '.' then .notTerminator else .single c

def literalExpr : Text → Expr
  | [] => .empty
  | c :: rest => .seq (.chars (literalSet c)) (literalExpr rest)

theorem readQuantifiers_none (fuel : Nat) (atom : Expr) {next : Char} (rest : Text)
    (hnext : next ∉ ['*', '+', '?', '{']) :
    readQuantifiers (fuel + 1) atom (next :: rest) = some (atom, next :: rest) := by
  simp only [List.mem_cons, List.not_mem_nil, or_false, not_or] at hnext
  obtain ⟨hstar, hplus, hoption, hinterval⟩ := hnext
  simp [readQuantifiers]
  split <;> simp_all

theorem readTerm_literal (fuel index : Nat) {c next : Char} (rest : Text)
    (hc : c ∉ operators) (hnext : next ∉ ['*', '+', '?', '{']) :
    readTerm (fuel + 2) index c (next :: rest) =
      some (.chars (literalSet c), index, next :: rest) := by
  simp only [operators, List.mem_cons, List.not_mem_nil, or_false, not_or] at hc
  by_cases hdot : c = '.'
  · subst hdot
    simp [readTerm, readQuantifiers_none fuel _ rest hnext, literalSet]
  · rw [readTerm.eq_def]
    simp only
    split <;> simp_all [readQuantifiers_none fuel _ rest hnext, literalSet]

/-- A parenthesis that is not followed by a question mark begins a group. -/
theorem readTerm_group (fuel index : Nat) {text : Text} (htext : ∀ inner, text ≠ '?' :: inner) :
    readTerm (fuel + 1) index '(' text = (do
      let (body, next, rest) ← readAlternatives fuel (index + 1) text
      let rest ← readTerm.closing rest
      let (term, rest) ← readQuantifiers fuel (.group index body) rest
      some (term, next, rest)) := by
  rw [readTerm.eq_def]
  simp only
  split <;> simp_all

/-- A literal text in parentheses is read as the sequence of its characters. -/
theorem readSequence_literal (index : Nat) (after : Text) {text : Text}
    (htext : Literal text) (fuel : Nat) :
    readSequence (fuel + text.length + 3) index (text ++ ')' :: after) =
      some (literalExpr text, index, ')' :: after) := by
  induction text with
  | nil => simp [readSequence, literalExpr]
  | cons c rest ih =>
      have hc : c ∉ operators := htext c List.mem_cons_self
      have hrest : Literal rest := fun d hd => htext d (List.mem_cons_of_mem c hd)
      have hstop : ¬ (c = '|' ∨ c = ')') := by
        rintro (rfl | rfl) <;> exact hc (by decide)
      have hnext : ∃ next tail, rest ++ ')' :: after = next :: tail ∧
          next ∉ ['*', '+', '?', '{'] := by
        cases rest with
        | nil => exact ⟨')', after, rfl, by decide⟩
        | cons d tail =>
            refine ⟨d, tail ++ ')' :: after, rfl, fun hd => ?_⟩
            refine hrest d List.mem_cons_self ?_
            simp only [List.mem_cons, List.not_mem_nil, or_false] at hd
            rcases hd with rfl | rfl | rfl | rfl <;> decide
      obtain ⟨next, tail, hsplit, hquantifier⟩ := hnext
      have hfuel : fuel + (c :: rest).length + 3 = fuel + rest.length + 3 + 1 := by
        simp only [List.length_cons]
        omega
      have hterm : readTerm (fuel + rest.length + 3) index c (rest ++ ')' :: after) =
          some (.chars (literalSet c), index, rest ++ ')' :: after) := by
        rw [hsplit]
        exact readTerm_literal (fuel + rest.length + 1) index tail hc hquantifier
      rw [hfuel, List.cons_append, readSequence, if_neg hstop, hterm]
      simp [ih hrest, literalExpr]

theorem literalSet_self {c : Char} (hc : c ∉ operators) : (literalSet c).contains c = true := by
  by_cases hdot : c = '.'
  · subst hdot
    decide
  · simp [literalSet, hdot, CharSet.contains, CharSet.single, ClassItem.single,
      ClassItem.contains]

/-- A literal text reads itself, and nothing else in the same place. -/
theorem run_literalExpr (total : Nat) (groups : List (Nat × Text)) (rest : Text)
    {text : Text} (htext : Literal text) :
    (literalExpr text).run total ⟨text ++ rest, groups⟩ = [⟨rest, groups⟩] := by
  induction text with
  | nil => rfl
  | cons c tail ih =>
      have hc : c ∉ operators := htext c List.mem_cons_self
      have htail : Literal tail := fun d hd => htext d (List.mem_cons_of_mem c hd)
      rw [literalExpr, run_seq, List.cons_append, run_chars_cons, if_pos (literalSet_self hc),
        List.flatMap_singleton, ih htail]

end Regex

end PdsBackup
