import PdsBackup.Core.RegexText

/-!
# Texts without groups, classes and wildcards

A text may have quantifiers, anchors and alternatives and yet stand for nothing
but characters that are read literally.  An expression that is read from such a
text goes over no character that is an operator, so no operator of the text is
matched by the expression itself.
-/

namespace PdsBackup

namespace Regex

/-- The characters that nest an expression or stand for other characters. -/
def wildcards : List Char := ['(', ')', '[', '\\', '.']

def Flat (text : Text) : Prop := ∀ c ∈ text, c ∉ wildcards

instance (text : Text) : Decidable (Flat text) :=
  List.decidableBAll (fun c => c ∉ wildcards) text

theorem Flat.of_suffix {text rest : Text} (htext : Flat text) (hrest : rest <:+ text) :
    Flat rest :=
  fun c hc => htext c (hrest.subset hc)

/-! ## Quantifiers -/

/-- What a reader of quantifiers leaves: it has gone over no closing parenthesis. -/
def Passes (text rest : Text) : Prop := ∃ read, text = read ++ rest ∧ ')' ∉ read

namespace Passes

variable {text middle rest after : Text}

theorem refl : Passes text text := ⟨[], rfl, List.not_mem_nil⟩

theorem cons {c : Char} (hc : c ≠ ')') (hrest : Passes text rest) : Passes (c :: text) rest := by
  obtain ⟨read, htext, hread⟩ := hrest
  refine ⟨c :: read, by rw [htext, List.cons_append], ?_⟩
  intro hmem
  cases hmem with
  | head => exact hc rfl
  | tail _ hmem => exact hread hmem

theorem trans (hfirst : Passes text middle) (hsecond : Passes middle rest) :
    Passes text rest := by
  obtain ⟨first, htext, hfirst⟩ := hfirst
  obtain ⟨second, hmiddle, hsecond⟩ := hsecond
  refine ⟨first ++ second, by rw [htext, hmiddle, List.append_assoc], ?_⟩
  intro hmem
  cases List.mem_append.mp hmem with
  | inl hmem => exact hfirst hmem
  | inr hmem => exact hsecond hmem

/-- It stops before a parenthesis that closes. -/
theorem within (hpasses : Passes (text ++ ')' :: after) rest) :
    ∃ inner, rest = inner ++ ')' :: after ∧ inner <:+ text := by
  obtain ⟨read, heq, hread⟩ := hpasses
  cases List.append_eq_append_iff.mp heq with
  | inl hlonger =>
      obtain ⟨more, hmore, hrest⟩ := hlonger
      cases more with
      | nil => exact ⟨[], hrest.symm, text.nil_suffix⟩
      | cons c more =>
          have hclosing : c = ')' := (List.cons.inj hrest).1.symm
          rw [hmore, hclosing] at hread
          exact absurd (List.mem_append_right text List.mem_cons_self) hread
  | inr hshorter =>
      obtain ⟨inner, htext, hrest⟩ := hshorter
      exact ⟨inner, hrest, read, htext.symm⟩

end Passes

theorem readNumber_passes {text rest : Text} {number : Nat}
    (hread : readNumber text = some (number, rest)) : Passes text rest := by
  have hdigit : ∀ c ∈ text.takeWhile Char.isDigit, c.isDigit = true :=
    List.all_eq_true.mp List.all_takeWhile
  have hsplit := (List.takeWhile_append_dropWhile (p := Char.isDigit) (l := text)).symm
  rw [readNumber] at hread
  split at hread
  · cases hread
  · cases hread
    refine ⟨_, hsplit, ?_⟩
    intro hmem
    exact absurd (hdigit _ hmem) (by decide)

theorem readInterval_passes {text rest : Text} {least : Nat} {most : Option Nat}
    (hread : readInterval text = some (least, most, rest)) : Passes text rest := by
  simp only [readInterval, Option.bind_eq_bind, Option.bind_eq_some_iff] at hread
  obtain ⟨⟨first, middle⟩, hfirst, hread⟩ := hread
  apply (readNumber_passes hfirst).trans
  simp only at hread
  split at hread
  · cases hread
    exact Passes.refl.cons (by decide)
  · cases hread
    exact (Passes.refl.cons (by decide)).cons (by decide)
  · obtain ⟨⟨second, after⟩, hsecond, hread⟩ := Option.bind_eq_some_iff.mp hread
    apply Passes.cons (by decide)
    apply (readNumber_passes hsecond).trans
    simp only at hread
    split at hread
    · split at hread
      · cases hread
        exact Passes.refl.cons (by decide)
      · cases hread
    · cases hread
  · cases hread

/-- How the reader goes on with the bounds of a quantifier. -/
def readRepeated (fuel : Nat) (atom : Expr) (text : Text) :
    Option (Nat × Option Nat × Text) → Option (Expr × Text)
  | none => some (atom, text)
  | some (least, most, '?' :: rest) => readQuantifiers fuel (.repetition least most false atom) rest
  | some (least, most, rest) => readQuantifiers fuel (.repetition least most true atom) rest

/-- Quantifiers repeat what they follow, and bring in no character. -/
theorem readQuantifiers_passes {fuel : Nat} {atom term : Expr} {text rest : Text}
    (hread : readQuantifiers fuel atom text = some (term, rest)) :
    Passes text rest ∧ ∀ c, term.alphabet c = true → atom.alphabet c = true := by
  induction fuel generalizing atom text with
  | zero => cases hread
  | succ fuel ih =>
      have hrepeated : ∀ bounds : Option (Nat × Option Nat × Text),
          (∀ least most after, bounds = some (least, most, after) → Passes text after) →
          readRepeated fuel atom text bounds = some (term, rest) →
          Passes text rest ∧ ∀ c, term.alphabet c = true → atom.alphabet c = true := by
        intro bounds hbounds hread
        unfold readRepeated at hread
        split at hread
        · cases hread
          exact ⟨Passes.refl, fun c hc => hc⟩
        · obtain ⟨hrest, halphabet⟩ := ih hread
          exact ⟨(hbounds _ _ _ rfl).trans (hrest.cons (by decide)), halphabet⟩
        · obtain ⟨hrest, halphabet⟩ := ih hread
          exact ⟨(hbounds _ _ _ rfl).trans hrest, halphabet⟩
      have hsign : ∀ {c : Char} {least : Nat} {most : Option Nat} {following : Text},
          c ≠ ')' → text = c :: following → ∀ least' most' after,
            some (least, most, following) = some (least', most', after) → Passes text after := by
        intro c least most following hc htext least' most' after heq
        cases heq
        rw [htext]
        exact Passes.refl.cons hc
      simp only [readQuantifiers, Option.bind_eq_bind] at hread
      split at hread
      · exact hrepeated _ (hsign (by decide) rfl) hread
      · exact hrepeated _ (hsign (by decide) rfl) hread
      · exact hrepeated _ (hsign (by decide) rfl) hread
      · obtain ⟨bounds, hbounds, hread⟩ := Option.bind_eq_some_iff.mp hread
        obtain ⟨interval, hinterval, heq⟩ := Option.map_eq_some_iff.mp hbounds
        apply hrepeated _ _ hread
        intro least most after hsome
        rw [← heq] at hsome
        cases hsome
        exact (readInterval_passes hinterval).cons (by decide)
      · apply hrepeated none _ hread
        intro least most after hsome
        cases hsome

/-! ## Terms, sequences and alternatives -/

/-- What is read of a flat text in parentheses: no group, and nothing that goes over
an operator. -/
structure ReadsFlat (index : Nat) (text after : Text) (expr : Expr) (next : Nat)
    (rest : Text) : Prop where
  index : next = index
  stops : ∃ inner, rest = inner ++ ')' :: after ∧ inner <:+ text
  alphabet : ∀ c, expr.alphabet c = true → c ∉ operators

section ReadsFlat

variable {fuel index next : Nat} {text after rest : Text} {expr : Expr}

theorem alphabet_single {c d : Char} (hd : (Expr.chars (.single c)).alphabet d = true) :
    d = c := by
  simp only [Expr.alphabet, CharSet.contains, CharSet.single, ClassItem.single,
    ClassItem.contains, List.any_cons, List.any_nil, Bool.or_false, Bool.bne_false,
    Bool.and_eq_true, decide_eq_true_eq] at hd
  exact Char.le_antisymm hd.2 hd.1

theorem readTerm_flat {c : Char} (hc : c ∉ wildcards) (hbar : c ≠ '|')
    (hread : readTerm fuel index c (text ++ ')' :: after) = some (expr, next, rest)) :
    ReadsFlat index text after expr next rest := by
  cases fuel with
  | zero => cases hread
  | succ fuel =>
      rw [readTerm.eq_def] at hread
      simp only at hread
      split at hread
      · cases hread
        exact ⟨rfl, ⟨text, rfl, text.suffix_refl⟩, fun d hd => by cases hd⟩
      · cases hread
        exact ⟨rfl, ⟨text, rfl, text.suffix_refl⟩, fun d hd => by cases hd⟩
      · exact absurd hc (by decide)
      · exact absurd hc (by decide)
      · exact absurd hc (by decide)
      · exact absurd hc (by decide)
      · exact absurd hc (by decide)
      · exact absurd hc (by decide)
      · exact absurd hc (by decide)
      · exact absurd hc (by decide)
      · -- a character that stands for itself
        rename_i hstart hend _ _ _ _ _ _ _ _
        split at hread
        · cases hread
        · rename_i hplain
          obtain ⟨⟨term, after'⟩, hquantifiers, hread⟩ := Option.bind_eq_some_iff.mp hread
          cases hread
          obtain ⟨hpasses, halphabet⟩ := readQuantifiers_passes hquantifiers
          refine ⟨rfl, hpasses.within, ?_⟩
          intro d hd
          rw [alphabet_single (halphabet d hd)]
          simp only [wildcards, operators, List.mem_cons, List.not_mem_nil, or_false,
            not_or] at hc hplain ⊢
          exact ⟨hstart, hend, hplain.2.2.2.2, hplain.1, hplain.2.1, hplain.2.2.1, hc.1, hc.2.1,
            hc.2.2.1, hplain.2.2.2.1, hbar⟩

/-- A sequence ends at a bar or at the parenthesis that closes. -/
theorem readSequence_flat (htext : Flat text)
    (hread : readSequence fuel index (text ++ ')' :: after) = some (expr, next, rest)) :
    ReadsFlat index text after expr next rest ∧
      (rest = ')' :: after ∨ ∃ inner, rest = '|' :: inner) := by
  induction fuel generalizing index text expr next rest with
  | zero => cases hread
  | succ fuel ih =>
      cases text with
      | nil =>
          rw [List.nil_append, readSequence, if_pos (.inr rfl)] at hread
          cases hread
          exact ⟨⟨rfl, ⟨[], rfl, List.suffix_refl []⟩, fun d hd => by cases hd⟩, .inl rfl⟩
      | cons c text =>
          have hc : c ∉ wildcards := htext c List.mem_cons_self
          have hclosing : c ≠ ')' := by
            intro heq
            exact hc (heq ▸ by decide)
          by_cases hbar : c = '|'
          · rw [List.cons_append, readSequence, if_pos (.inl hbar)] at hread
            cases hread
            exact ⟨⟨rfl, ⟨c :: text, rfl, List.suffix_refl _⟩, fun d hd => by cases hd⟩,
              .inr ⟨_, by rw [hbar]⟩⟩
          · rw [List.cons_append, readSequence, if_neg (by simp [hbar, hclosing])] at hread
            obtain ⟨⟨term, middle, left⟩, hterm, hread⟩ := Option.bind_eq_some_iff.mp hread
            obtain ⟨⟨terms, last, right⟩, hterms, hread⟩ := Option.bind_eq_some_iff.mp hread
            cases hread
            have hfirst := readTerm_flat hc hbar hterm
            obtain ⟨inner, hleft, hinner⟩ := hfirst.stops
            have hflat : Flat inner :=
              htext.of_suffix (hinner.trans (List.suffix_cons c text))
            simp only [hleft] at hterms
            obtain ⟨hrest, hends⟩ := ih hflat hterms
            obtain ⟨inner', hright, hinner'⟩ := hrest.stops
            refine ⟨⟨hrest.index.trans hfirst.index, ⟨inner', hright,
              hinner'.trans (hinner.trans (List.suffix_cons c text))⟩, ?_⟩, hends⟩
            intro d hd
            cases Bool.or_eq_true_iff.mp hd with
            | inl hleft => exact hfirst.alphabet d hleft
            | inr hright => exact hrest.alphabet d hright

theorem readAlternatives_flat (htext : Flat text)
    (hread : readAlternatives fuel index (text ++ ')' :: after) = some (expr, next, rest)) :
    ReadsFlat index text after expr next rest ∧ rest = ')' :: after := by
  induction fuel generalizing index text expr next rest with
  | zero => cases hread
  | succ fuel ih =>
      rw [readAlternatives] at hread
      obtain ⟨⟨left, middle, stop⟩, hleft, hread⟩ := Option.bind_eq_some_iff.mp hread
      obtain ⟨hfirst, hends⟩ := readSequence_flat htext hleft
      cases hends with
      | inl hclosing =>
          simp only [hclosing] at hread
          cases hread
          exact ⟨hclosing ▸ hfirst, rfl⟩
      | inr hbar =>
          obtain ⟨inner, hbar⟩ := hbar
          obtain ⟨inner', hstop, hinner⟩ := hfirst.stops
          cases inner' with
          | nil =>
              rw [hbar, List.nil_append] at hstop
              exact absurd (List.cons.inj hstop).1 (by decide)
          | cons c inner' =>
              rw [hbar, List.cons_append] at hstop
              obtain ⟨hc, hinner'⟩ := List.cons.inj hstop
              rw [hinner'] at hbar
              simp only [hbar] at hread
              obtain ⟨⟨right, last, stop'⟩, hright, hread⟩ := Option.bind_eq_some_iff.mp hread
              cases hread
              have hsuffix : inner' <:+ text := (List.suffix_cons c inner').trans hinner
              obtain ⟨hsecond, hstop'⟩ := ih (htext.of_suffix hsuffix) hright
              refine ⟨⟨hsecond.index.trans hfirst.index, ⟨[], hstop', text.nil_suffix⟩, ?_⟩, hstop'⟩
              intro d hd
              cases Bool.or_eq_true_iff.mp hd with
              | inl hleft => exact hfirst.alphabet d hleft
              | inr hright => exact hsecond.alphabet d hright

end ReadsFlat

end Regex

end PdsBackup
