import Mathlib.Data.List.Basic
import Mathlib.Tactic.Common

/-!
# Backtracking regular expressions

The ECMAScript flavour: a match is found by trying alternatives in priority
order, greedy quantifiers first take as many characters as they can, and a
capturing group reports the last text it went over.  A matcher is therefore a
function from a position to the list of the positions it can end in, best
first; a full match is the first of them with nothing left to read.
-/

namespace PdsBackup

abbrev Text := List Char

namespace Regex

/-- One item of a bracket expression. -/
inductive ClassItem where
  | range (first last : Char)
  | word
  | digit
  | space
  deriving DecidableEq

namespace ClassItem

def single (c : Char) : ClassItem := .range c c

def contains (c : Char) : ClassItem → Bool
  | .range first last => decide (first ≤ c) && decide (c ≤ last)
  | .word => c.isAlphanum || c == '_'
  | .digit => c.isDigit
  | .space => c.isWhitespace || c == '\x0b' || c == '\x0c'

end ClassItem

/-- A set of characters: the characters of the items, or all the others. -/
structure CharSet where
  negated : Bool
  items : List ClassItem
  deriving DecidableEq

namespace CharSet

def contains (set : CharSet) (c : Char) : Bool :=
  (set.items.any fun item => item.contains c) != set.negated

def single (c : Char) : CharSet := ⟨false, [.single c]⟩

/-- What `.` stands for: every character but the line terminators. -/
def notTerminator : CharSet := ⟨true, [.single '\n', .single '\r']⟩

end CharSet

inductive Expr where
  | empty
  | chars (set : CharSet)
  | seq (left right : Expr)
  | alt (left right : Expr)
  | repetition (least : Nat) (most : Option Nat) (greedy : Bool) (body : Expr)
  | group (index : Nat) (body : Expr)
  | lookahead (negative : Bool) (body : Expr)
  | inputStart
  | inputEnd
  deriving DecidableEq

/-- Where a matcher stands: the text still to be read and the groups closed so
far, latest first. -/
structure Position where
  rest : Text
  groups : List (Nat × Text) := []
  deriving DecidableEq

/-- `count` rounds of `body`. -/
def rounds (body : Position → List Position) : Nat → Position → List Position
  | 0, position => [position]
  | count + 1, position => (body position).flatMap (rounds body count)

/-- Up to `count` further rounds.  A round that reads nothing is not taken. -/
def furtherRounds (body : Position → List Position) (greedy : Bool) :
    Nat → Position → List Position
  | 0, position => [position]
  | count + 1, position =>
      let more := ((body position).filter fun next =>
        next.rest.length < position.rest.length).flatMap (furtherRounds body greedy count)
      if greedy then more ++ [position] else position :: more

/-- The end positions of `expr`, best first, in an input of `total` characters. -/
def Expr.run (total : Nat) : Expr → Position → List Position
  | .empty, position => [position]
  | .chars set, position =>
      match position.rest with
      | c :: rest => if set.contains c then [{ position with rest }] else []
      | [] => []
  | .seq left right, position => (left.run total position).flatMap (right.run total)
  | .alt left right, position => left.run total position ++ right.run total position
  | .repetition least most greedy body, position =>
      (rounds (body.run total) least position).flatMap fun next =>
        furtherRounds (body.run total) greedy
          (match most with
            | some most => most - least
            | none => next.rest.length) next
  | .group index body, position =>
      (body.run total position).map fun next =>
        { next with
          groups := (index, position.rest.take (position.rest.length - next.rest.length)) ::
            next.groups }
  | .lookahead negative body, position =>
      match body.run total position with
      | [] => if negative then [position] else []
      | next :: _ => if negative then [] else [{ position with groups := next.groups }]
  | .inputStart, position => if position.rest.length = total then [position] else []
  | .inputEnd, position => if position.rest = [] then [position] else []

/-- `std::regex_match`: the groups of the best match of the whole text. -/
def fullMatch (expr : Expr) (text : Text) : Option (List (Nat × Text)) :=
  ((expr.run text.length ⟨text, []⟩).find? fun position => position.rest = []).map
    Position.groups

def isFullMatch (expr : Expr) (text : Text) : Bool :=
  (fullMatch expr text).isSome

/-- The text of a group, as in `m[index]`. -/
def groupText (groups : List (Nat × Text)) (index : Nat) : Text :=
  (groups.lookup index).getD []

/-- `std::regex_replace` from a position on: every match is replaced, and the
characters no match begins at are copied.  `fuel` bounds the characters left. -/
def replaceFrom (expr : Expr) (by' : Text) (total : Nat) : Nat → Text → Text
  | 0, rest => rest
  | _ + 1, [] => []
  | fuel + 1, c :: rest =>
      match (expr.run total ⟨c :: rest, []⟩).head? with
      | some next =>
          if next.rest.length < (c :: rest).length then
            by' ++ replaceFrom expr by' total fuel next.rest
          else c :: replaceFrom expr by' total fuel rest
      | none => c :: replaceFrom expr by' total fuel rest

def replaceAll (expr : Expr) (by' text : Text) : Text :=
  replaceFrom expr by' text.length text.length text

/-! ## How the matchers run -/

section Run

variable (total : Nat)

@[simp] theorem run_empty (position : Position) :
    Expr.empty.run total position = [position] := rfl

@[simp] theorem run_chars_nil (set : CharSet) (groups : List (Nat × Text)) :
    (Expr.chars set).run total ⟨[], groups⟩ = [] := rfl

theorem run_chars_cons (set : CharSet) (c : Char) (rest : Text)
    (groups : List (Nat × Text)) :
    (Expr.chars set).run total ⟨c :: rest, groups⟩ =
      if set.contains c then [⟨rest, groups⟩] else [] := rfl

theorem run_seq (left right : Expr) (position : Position) :
    (Expr.seq left right).run total position =
      (left.run total position).flatMap (right.run total) := rfl

theorem run_group (index : Nat) (body : Expr) (position : Position) :
    (Expr.group index body).run total position =
      (body.run total position).map fun next =>
        { next with
          groups := (index, position.rest.take (position.rest.length - next.rest.length)) ::
            next.groups } := rfl

theorem run_alt (left right : Expr) (position : Position) :
    (Expr.alt left right).run total position =
      left.run total position ++ right.run total position := rfl

theorem run_lookahead (negative : Bool) (body : Expr) (position : Position) :
    (Expr.lookahead negative body).run total position =
      match body.run total position with
      | [] => if negative then [position] else []
      | next :: _ => if negative then [] else [{ position with groups := next.groups }] := rfl

theorem run_inputStart (text : Text) (groups : List (Nat × Text)) :
    Expr.inputStart.run text.length ⟨text, groups⟩ = [⟨text, groups⟩] := by
  simp [Expr.run]

theorem run_inputEnd (position : Position) :
    Expr.inputEnd.run total position =
      if position.rest = [] then [position] else [] := rfl

end Run

/-! ## What a matcher can read -/

/-- The characters an expression can go over. -/
def Expr.alphabet : Expr → Char → Bool
  | .empty, _ => false
  | .chars set, c => set.contains c
  | .seq left right, c => left.alphabet c || right.alphabet c
  | .alt left right, c => left.alphabet c || right.alphabet c
  | .repetition _ _ _ body, c => body.alphabet c
  | .group _ body, c => body.alphabet c
  | .lookahead _ _, _ => false
  | .inputStart, _ => false
  | .inputEnd, _ => false

/-- Each end position is reached over allowed characters only. -/
def Reads (allowed : Char → Bool) (body : Position → List Position) : Prop :=
  ∀ position, ∀ next ∈ body position,
    ∃ read, position.rest = read ++ next.rest ∧ ∀ c ∈ read, allowed c

namespace Reads

variable {allowed : Char → Bool} {body after : Position → List Position}

theorem stay {position next : Position} (hnext : next.rest = position.rest) :
    ∃ read, position.rest = read ++ next.rest ∧ ∀ c ∈ read, allowed c :=
  ⟨[], by simp [hnext]⟩

theorem andThen (hbody : Reads allowed body) (hafter : Reads allowed after) :
    Reads allowed fun position => (body position).flatMap after := by
  intro position next hnext
  obtain ⟨middle, hmiddle, hnext⟩ := List.mem_flatMap.mp hnext
  obtain ⟨first, hfirst, hallFirst⟩ := hbody position middle hmiddle
  obtain ⟨second, hsecond, hallSecond⟩ := hafter middle next hnext
  refine ⟨first ++ second, by rw [hfirst, hsecond, List.append_assoc], ?_⟩
  intro c hc
  rcases List.mem_append.mp hc with hc | hc
  · exact hallFirst c hc
  · exact hallSecond c hc

theorem rounds (hbody : Reads allowed body) (count : Nat) :
    Reads allowed (Regex.rounds body count) := by
  induction count with
  | zero =>
      intro position next hnext
      rw [Regex.rounds, List.mem_singleton] at hnext
      exact stay (by rw [hnext])
  | succ count ih => exact andThen hbody ih

theorem furtherRounds (hbody : Reads allowed body) (greedy : Bool) (count : Nat) :
    Reads allowed (Regex.furtherRounds body greedy count) := by
  induction count with
  | zero =>
      intro position next hnext
      rw [Regex.furtherRounds, List.mem_singleton] at hnext
      exact stay (by rw [hnext])
  | succ count ih =>
      intro position next hnext
      have hcases : next ∈ ((body position).filter fun next =>
          next.rest.length < position.rest.length).flatMap
            (Regex.furtherRounds body greedy count) ∨ next = position := by
        cases greedy <;> simpa [Regex.furtherRounds, or_comm] using hnext
      rcases hcases with hmore | rfl
      · obtain ⟨middle, hmiddle, hmore⟩ := List.mem_flatMap.mp hmore
        exact andThen hbody ih position next
          (List.mem_flatMap.mpr ⟨middle, (List.mem_filter.mp hmiddle).1, hmore⟩)
      · exact stay rfl

theorem mono {wider : Char → Bool} (hbody : Reads allowed body)
    (hwider : ∀ c, allowed c → wider c) : Reads wider body := by
  intro position next hnext
  obtain ⟨read, hread, hall⟩ := hbody position next hnext
  exact ⟨read, hread, fun c hc => hwider c (hall c hc)⟩

end Reads

theorem run_reads (total : Nat) (expr : Expr) : Reads expr.alphabet (expr.run total) := by
  induction expr with
  | empty => exact fun position next hnext => Reads.stay (by rw [List.mem_singleton.mp hnext])
  | chars set =>
      rintro ⟨rest, groups⟩ next hnext
      cases rest with
      | nil => simp at hnext
      | cons c rest =>
          rw [run_chars_cons] at hnext
          by_cases hc : set.contains c
          · rw [if_pos hc, List.mem_singleton] at hnext
            exact ⟨[c], by simp [hnext], by simpa [Expr.alphabet] using hc⟩
          · simp [hc] at hnext
  | seq left right hleft hright =>
      exact (hleft.mono fun c hc => by simp [Expr.alphabet, hc]).andThen
        (hright.mono fun c hc => by simp [Expr.alphabet, hc])
  | alt left right hleft hright =>
      intro position next hnext
      rcases List.mem_append.mp hnext with hnext | hnext
      · exact hleft.mono (fun c hc => by simp [Expr.alphabet, hc]) position next hnext
      · exact hright.mono (fun c hc => by simp [Expr.alphabet, hc]) position next hnext
  | repetition least most greedy body hbody =>
      intro position next hnext
      obtain ⟨middle, hmiddle, hnext⟩ := List.mem_flatMap.mp hnext
      obtain ⟨first, hfirst, hallFirst⟩ := hbody.rounds least position middle hmiddle
      obtain ⟨second, hsecond, hallSecond⟩ := hbody.furtherRounds greedy _ middle next hnext
      refine ⟨first ++ second, by rw [hfirst, hsecond, List.append_assoc], ?_⟩
      intro c hc
      rcases List.mem_append.mp hc with hc | hc
      · exact hallFirst c hc
      · exact hallSecond c hc
  | group index body hbody =>
      intro position next hnext
      obtain ⟨closed, hclosed, rfl⟩ := List.mem_map.mp hnext
      exact hbody position closed hclosed
  | lookahead negative body hbody =>
      intro position next hnext
      refine Reads.stay ?_
      rw [Expr.run] at hnext
      cases hrun : body.run total position with
      | nil => cases negative <;> simp_all
      | cons first others => cases negative <;> simp_all
  | inputStart =>
      intro position next hnext
      refine Reads.stay ?_
      simp only [Expr.run] at hnext
      split at hnext <;> simp_all
  | inputEnd =>
      intro position next hnext
      refine Reads.stay ?_
      simp only [Expr.run] at hnext
      split at hnext <;> simp_all

theorem alphabet_of_isFullMatch {expr : Expr} {text : Text} (hmatch : isFullMatch expr text = true)
    {c : Char} (hc : c ∈ text) : expr.alphabet c = true := by
  rw [isFullMatch, fullMatch, Option.isSome_map, List.find?_isSome] at hmatch
  obtain ⟨next, hnext, hend⟩ := hmatch
  obtain ⟨read, hread, hall⟩ := run_reads text.length expr _ next hnext
  simp only [decide_eq_true_eq] at hend
  rw [hend, List.append_nil] at hread
  exact hall c (by rwa [← hread])

/-- A replacement brings in no characters but its own. -/
theorem mem_replaceFrom (expr : Expr) (by' : Text) (total fuel : Nat) (rest : Text) {c : Char}
    (hc : c ∈ replaceFrom expr by' total fuel rest) : c ∈ rest ∨ c ∈ by' := by
  induction fuel generalizing rest with
  | zero => exact .inl hc
  | succ fuel ih =>
      cases rest with
      | nil => simp [replaceFrom] at hc
      | cons first rest =>
          have hcopy : c ∈ first :: replaceFrom expr by' total fuel rest →
              c ∈ first :: rest ∨ c ∈ by' := by
            intro hc
            rcases List.mem_cons.mp hc with rfl | hc
            · exact .inl List.mem_cons_self
            · exact (ih rest hc).imp (List.mem_cons_of_mem first) id
          rw [replaceFrom] at hc
          cases hhead : (expr.run total ⟨first :: rest, []⟩).head? with
          | none =>
              rw [hhead] at hc
              exact hcopy hc
          | some next =>
              rw [hhead] at hc
              simp only at hc
              split at hc
              · rcases List.mem_append.mp hc with hc | hc
                · exact .inr hc
                · obtain ⟨read, hread, -⟩ :=
                    run_reads total expr _ next (List.mem_of_head? hhead)
                  refine (ih next.rest hc).imp (fun hc => ?_) id
                  have hrest : first :: rest = read ++ next.rest := hread
                  rw [hrest]
                  exact List.mem_append_right read hc
              · exact hcopy hc

theorem mem_replaceAll (expr : Expr) (by' text : Text) {c : Char}
    (hc : c ∈ replaceAll expr by' text) : c ∈ text ∨ c ∈ by' :=
  mem_replaceFrom expr by' text.length text.length text hc

end Regex

end PdsBackup
