import PdsBackup.Core.RegexText

/-!
# What a regular expression means

The matcher tries the ways to read a text in an order of its own.  Whether it
finds one at all does not depend on that order: an expression relates a text to
what can be left of it, and the matcher succeeds exactly where that relation
leads to the end.
-/

namespace PdsBackup

namespace Regex

/-- `count` rounds of a relation. -/
def Times (step : Text → Text → Prop) : Nat → Text → Text → Prop
  | 0, text, rest => rest = text
  | count + 1, text, rest => ∃ middle, step text middle ∧ Times step count middle rest

/-- What an expression can leave of a text, in an input of `total` characters. -/
def Expr.Leads (total : Nat) : Expr → Text → Text → Prop
  | .empty, text, rest => rest = text
  | .chars set, text, rest => ∃ c, set.contains c = true ∧ text = c :: rest
  | .seq left right, text, rest =>
      ∃ middle, left.Leads total text middle ∧ right.Leads total middle rest
  | .alt left right, text, rest => left.Leads total text rest ∨ right.Leads total text rest
  | .repetition least most _ body, text, rest =>
      ∃ further, (∀ bound ∈ most, further ≤ bound - least) ∧
        Times (body.Leads total) (least + further) text rest
  | .group _ body, text, rest => body.Leads total text rest
  | .lookahead negative body, text, rest =>
      rest = text ∧ ((∃ left, body.Leads total text left) ↔ negative = false)
  | .inputStart, text, rest => rest = text ∧ text.length = total
  | .inputEnd, text, rest => rest = text ∧ text = []

/-- A matcher ends exactly where a relation leads. -/
def Finds (body : Position → List Position) (step : Text → Text → Prop) : Prop :=
  ∀ text groups rest, (∃ closed, (⟨rest, closed⟩ : Position) ∈ body ⟨text, groups⟩) ↔ step text rest

/-! ## Rounds -/

section Rounds

variable {step : Text → Text → Prop} {text rest : Text}

theorem times_add {first second : Nat} :
    Times step (first + second) text rest ↔
      ∃ middle, Times step first text middle ∧ Times step second middle rest := by
  induction first generalizing text with
  | zero => simp [Times]
  | succ first ih =>
      rw [Nat.succ_add]
      constructor
      · rintro ⟨next, hnext, hrest⟩
        obtain ⟨middle, hfirst, hsecond⟩ := ih.mp hrest
        exact ⟨middle, ⟨next, hnext, hfirst⟩, hsecond⟩
      · rintro ⟨middle, ⟨next, hnext, hfirst⟩, hsecond⟩
        exact ⟨next, hnext, ih.mpr ⟨middle, hfirst, hsecond⟩⟩

/-- A round that reads something. -/
def Progress (step : Text → Text → Prop) (text rest : Text) : Prop :=
  step text rest ∧ rest.length < text.length

theorem times_progress_length {count : Nat} (htimes : Times (Progress step) count text rest) :
    count ≤ text.length := by
  induction count generalizing text with
  | zero => exact Nat.zero_le _
  | succ count ih =>
      obtain ⟨middle, ⟨-, hlength⟩, hrest⟩ := htimes
      have hcount := ih hrest
      omega

/-- Rounds that read nothing can be left out. -/
theorem times_progress (hsuffix : ∀ text rest, step text rest → rest <:+ text) {count : Nat}
    (htimes : Times step count text rest) :
    ∃ fewer ≤ count, Times (Progress step) fewer text rest := by
  induction count generalizing text with
  | zero => exact ⟨0, Nat.le_refl 0, htimes⟩
  | succ count ih =>
      obtain ⟨middle, hstep, hrest⟩ := htimes
      obtain ⟨fewer, hfewer, hrest⟩ := ih hrest
      have hmiddle := hsuffix text middle hstep
      by_cases hlength : middle.length < text.length
      · exact ⟨fewer + 1, by omega, middle, ⟨hstep, hlength⟩, hrest⟩
      · have hsame : middle = text := by
          apply hmiddle.eq_of_length
          have hle := hmiddle.length_le
          omega
        subst hsame
        exact ⟨fewer, by omega, hrest⟩

theorem times_of_progress {count : Nat} (htimes : Times (Progress step) count text rest) :
    Times step count text rest := by
  induction count generalizing text with
  | zero => exact htimes
  | succ count ih =>
      obtain ⟨middle, ⟨hstep, -⟩, hrest⟩ := htimes
      exact ⟨middle, hstep, ih hrest⟩

end Rounds

namespace Finds

variable {body after : Position → List Position} {step next : Text → Text → Prop}

theorem suffix {allowed : Char → Bool} (hfinds : Finds body step) (hreads : Reads allowed body)
    {text rest : Text} (hstep : step text rest) : rest <:+ text := by
  obtain ⟨closed, hmem⟩ := (hfinds text [] rest).mpr hstep
  obtain ⟨read, hread, -⟩ := hreads _ _ hmem
  exact ⟨read, hread.symm⟩

theorem andThen (hbody : Finds body step) (hafter : Finds after next) :
    Finds (fun position => (body position).flatMap after) fun text rest =>
      ∃ middle, step text middle ∧ next middle rest := by
  intro text groups rest
  constructor
  · rintro ⟨closed, hmem⟩
    obtain ⟨⟨middle, inner⟩, hmiddle, hrest⟩ := List.mem_flatMap.mp hmem
    exact ⟨middle, (hbody text groups middle).mp ⟨inner, hmiddle⟩,
      (hafter middle inner rest).mp ⟨closed, hrest⟩⟩
  · rintro ⟨middle, hmiddle, hrest⟩
    obtain ⟨inner, hmiddle⟩ := (hbody text groups middle).mpr hmiddle
    obtain ⟨closed, hrest⟩ := (hafter middle inner rest).mpr hrest
    exact ⟨closed, List.mem_flatMap.mpr ⟨⟨middle, inner⟩, hmiddle, hrest⟩⟩

theorem rounds (hbody : Finds body step) (count : Nat) :
    Finds (Regex.rounds body count) (Times step count) := by
  induction count with
  | zero =>
      intro text groups rest
      simp [Regex.rounds, Times]
  | succ count ih => exact andThen hbody ih

theorem furtherRounds (hbody : Finds body step) (greedy : Bool) (most : Nat) :
    Finds (Regex.furtherRounds body greedy most) fun text rest =>
      ∃ count ≤ most, Times (Progress step) count text rest := by
  induction most with
  | zero =>
      intro text groups rest
      simp [Regex.furtherRounds, Times]
  | succ most ih =>
      intro text groups rest
      have hmem : ∀ position, position ∈ Regex.furtherRounds body greedy (most + 1)
          ⟨text, groups⟩ ↔ position = ⟨text, groups⟩ ∨ ∃ middle ∈ body ⟨text, groups⟩,
            middle.rest.length < text.length ∧
              position ∈ Regex.furtherRounds body greedy most middle := by
        intro position
        cases greedy <;> simp [Regex.furtherRounds, List.mem_flatMap, or_comm, and_assoc]
      constructor
      · rintro ⟨closed, hclosed⟩
        cases (hmem _).mp hclosed with
        | inl hstay => exact ⟨0, Nat.zero_le _, congrArg Position.rest hstay⟩
        | inr hgo =>
            obtain ⟨⟨middle, inner⟩, hmiddle, hlength, hrest⟩ := hgo
            obtain ⟨count, hcount, htimes⟩ := (ih middle inner rest).mp ⟨closed, hrest⟩
            have hstep := (hbody text groups middle).mp ⟨inner, hmiddle⟩
            exact ⟨count + 1, by omega, middle, ⟨hstep, hlength⟩, htimes⟩
      · rintro ⟨count, hcount, htimes⟩
        cases count with
        | zero => exact ⟨groups, (hmem _).mpr (.inl (by rw [show rest = text from htimes]))⟩
        | succ count =>
            obtain ⟨middle, ⟨hstep, hlength⟩, htimes⟩ := htimes
            obtain ⟨inner, hmiddle⟩ := (hbody text groups middle).mpr hstep
            obtain ⟨closed, hrest⟩ := (ih middle inner rest).mpr ⟨count, by omega, htimes⟩
            exact ⟨closed, (hmem _).mpr (.inr ⟨_, hmiddle, hlength, hrest⟩)⟩

end Finds

/-! ## The matcher and the meaning -/

/-- The matcher ends exactly where the expression leads. -/
theorem run_finds (total : Nat) (expr : Expr) : Finds (expr.run total) (expr.Leads total) := by
  induction expr with
  | empty =>
      intro text groups rest
      simp [Expr.Leads]
  | chars set =>
      intro text groups rest
      cases text with
      | nil => simp [Expr.Leads]
      | cons c text =>
          by_cases hc : set.contains c
          · have hleads : (Expr.chars set).Leads total (c :: text) rest ↔ rest = text := by
              constructor
              · rintro ⟨d, -, htext⟩
                exact (List.cons.inj htext).2.symm
              · rintro rfl
                exact ⟨c, hc, rfl⟩
            rw [hleads, run_chars_cons, if_pos hc]
            simp
          · simp [Expr.Leads, run_chars_cons, hc]
  | seq left right hleft hright => exact hleft.andThen hright
  | alt left right hleft hright =>
      intro text groups rest
      rw [Expr.Leads, ← hleft text groups rest, ← hright text groups rest, ← exists_or]
      simp [Expr.run]
  | repetition least most greedy body hbody =>
      intro text groups rest
      have hsuffix : ∀ text rest, body.Leads total text rest → rest <:+ text :=
        fun _ _ => hbody.suffix (run_reads total body)
      constructor
      · rintro ⟨closed, hmem⟩
        obtain ⟨⟨middle, inner⟩, hmiddle, hrest⟩ := List.mem_flatMap.mp hmem
        have hfirst := (hbody.rounds least text groups middle).mp ⟨inner, hmiddle⟩
        obtain ⟨further, hfurther, hmore⟩ :=
          (hbody.furtherRounds greedy _ middle inner rest).mp ⟨closed, hrest⟩
        refine ⟨further, ?_, times_add.mpr ⟨middle, hfirst, times_of_progress hmore⟩⟩
        intro bound hbound
        rw [Option.mem_def] at hbound
        subst hbound
        exact hfurther
      · rintro ⟨further, hbound, htimes⟩
        obtain ⟨middle, hfirst, hmore⟩ := times_add.mp htimes
        obtain ⟨fewer, hfewer, hmore⟩ := times_progress hsuffix hmore
        obtain ⟨inner, hmiddle⟩ := (hbody.rounds least text groups middle).mpr hfirst
        have hfinds := fun most hmost =>
          (hbody.furtherRounds greedy most middle inner rest).mpr ⟨fewer, hmost, hmore⟩
        cases most with
        | none =>
            obtain ⟨closed, hrest⟩ := hfinds middle.length (times_progress_length hmore)
            exact ⟨closed, List.mem_flatMap.mpr ⟨⟨middle, inner⟩, hmiddle, hrest⟩⟩
        | some bound =>
            obtain ⟨closed, hrest⟩ := hfinds (bound - least)
              (Nat.le_trans hfewer (hbound bound rfl))
            exact ⟨closed, List.mem_flatMap.mpr ⟨⟨middle, inner⟩, hmiddle, hrest⟩⟩
  | group index body hbody =>
      intro text groups rest
      rw [Expr.Leads, ← hbody text groups rest, run_group]
      constructor
      · rintro ⟨closed, hmem⟩
        obtain ⟨⟨left, inner⟩, hnext, hclosed⟩ := List.mem_map.mp hmem
        have hleft : left = rest := congrArg Position.rest hclosed
        subst hleft
        exact ⟨inner, hnext⟩
      · rintro ⟨closed, hmem⟩
        exact ⟨_, List.mem_map.mpr ⟨_, hmem, rfl⟩⟩
  | lookahead negative body hbody =>
      intro text groups rest
      have hexists : (∃ left, body.Leads total text left) ↔ body.run total ⟨text, groups⟩ ≠ [] := by
        rw [Ne, List.eq_nil_iff_forall_not_mem, not_forall_not]
        constructor
        · rintro ⟨left, hleft⟩
          obtain ⟨closed, hmem⟩ := (hbody text groups left).mpr hleft
          exact ⟨_, hmem⟩
        · rintro ⟨⟨left, closed⟩, hmem⟩
          exact ⟨left, (hbody text groups left).mp ⟨closed, hmem⟩⟩
      rw [Expr.Leads, hexists, Expr.run]
      cases body.run total ⟨text, groups⟩ with
      | nil => cases negative <;> simp
      | cons first others => cases negative <;> simp
  | inputStart =>
      intro text groups rest
      by_cases hstart : text.length = total
      · simp [Expr.run, Expr.Leads, hstart]
      · simp [Expr.run, Expr.Leads, hstart]
  | inputEnd =>
      intro text groups rest
      by_cases hend : text = []
      · simp [Expr.run, Expr.Leads, hend]
      · simp [Expr.run, Expr.Leads, hend]

/-- A whole text is matched exactly when the expression leads to its end. -/
theorem isFullMatch_iff (expr : Expr) (text : Text) :
    isFullMatch expr text = true ↔ expr.Leads text.length text [] := by
  rw [← run_finds text.length expr text [] [], isFullMatch, fullMatch, Option.isSome_map,
    List.find?_isSome]
  constructor
  · rintro ⟨⟨rest, closed⟩, hmem, hend⟩
    rw [decide_eq_true_eq] at hend
    subst hend
    exact ⟨closed, hmem⟩
  · rintro ⟨closed, hmem⟩
    exact ⟨_, hmem, by simp⟩

/-! ## Fields and what ends them -/

section Fields

variable {total : Nat} {set : CharSet} {text rest : Text}

@[simp] theorem leads_empty : Expr.empty.Leads total text rest ↔ rest = text := Iff.rfl

@[simp] theorem leads_inputStart :
    Expr.inputStart.Leads total text rest ↔ rest = text ∧ text.length = total := Iff.rfl

@[simp] theorem leads_inputEnd :
    Expr.inputEnd.Leads total text rest ↔ rest = text ∧ text = [] := Iff.rfl

theorem leads_alt {left right : Expr} :
    (Expr.alt left right).Leads total text rest ↔
      left.Leads total text rest ∨ right.Leads total text rest := Iff.rfl

theorem leads_chars_cons {c : Char} :
    (Expr.chars set).Leads total (c :: text) rest ↔ set.contains c = true ∧ rest = text := by
  constructor
  · rintro ⟨d, hd, htext⟩
    obtain ⟨rfl, rfl⟩ := List.cons.inj htext
    exact ⟨hd, rfl⟩
  · rintro ⟨hc, rfl⟩
    exact ⟨c, hc, rfl⟩

theorem item_single (c d : Char) : (ClassItem.single c).contains d = true ↔ d = c := by
  have hle : c ≤ d ∧ d ≤ c ↔ d = c := by
    constructor
    · exact fun h => Char.le_antisymm h.2 h.1
    · rintro rfl
      exact ⟨Char.le_refl d, Char.le_refl d⟩
  simpa [ClassItem.single, ClassItem.contains] using hle

@[simp] theorem single_contains (c d : Char) : (CharSet.single c).contains d = true ↔ d = c := by
  simp [CharSet.contains, CharSet.single, item_single]

/-- A negated set of single characters. -/
theorem except_contains (chars : List Char) (c : Char) :
    CharSet.contains ⟨true, chars.map ClassItem.single⟩ c = true ↔ c ∉ chars := by
  have hany : (chars.map ClassItem.single).any (fun item => item.contains c) = true ↔ c ∈ chars := by
    rw [List.any_map, List.any_eq_true]
    simp [item_single]
  rw [CharSet.contains, ← hany]
  simp

theorem times_chars {count : Nat} :
    Times ((Expr.chars set).Leads total) count text rest ↔
      ∃ read, text = read ++ rest ∧ read.length = count ∧ ∀ c ∈ read, set.contains c = true := by
  induction count generalizing text with
  | zero =>
      constructor
      · intro htimes
        exact ⟨[], (show rest = text from htimes).symm, rfl, by simp⟩
      · rintro ⟨read, htext, hlength, -⟩
        rw [List.length_eq_zero_iff.mp hlength] at htext
        exact htext.symm
  | succ count ih =>
      constructor
      · rintro ⟨middle, ⟨c, hc, rfl⟩, htimes⟩
        obtain ⟨read, rfl, rfl, hall⟩ := ih.mp htimes
        exact ⟨c :: read, rfl, rfl, List.forall_mem_cons.mpr ⟨hc, hall⟩⟩
      · rintro ⟨read, rfl, hlength, hall⟩
        cases read with
        | nil => simp at hlength
        | cons c read =>
            obtain ⟨hc, hall⟩ := List.forall_mem_cons.mp hall
            refine ⟨read ++ rest, ⟨c, hc, rfl⟩, ih.mpr ⟨read, rfl, ?_, hall⟩⟩
            simpa using hlength

/-- A length that a repetition allows. -/
def Allowed (least : Nat) (most : Option Nat) (count : Nat) : Prop :=
  least ≤ count ∧ ∀ bound ∈ most, count - least ≤ bound - least

theorem leads_repetition_chars {least : Nat} {most : Option Nat} {greedy : Bool} :
    (Expr.repetition least most greedy (.chars set)).Leads total text rest ↔
      ∃ read, text = read ++ rest ∧ Allowed least most read.length ∧
        ∀ c ∈ read, set.contains c = true := by
  constructor
  · rintro ⟨further, hbound, htimes⟩
    obtain ⟨read, htext, hlength, hall⟩ := times_chars.mp htimes
    refine ⟨read, htext, ⟨by omega, ?_⟩, hall⟩
    intro bound hmost
    have hfurther := hbound bound hmost
    omega
  · rintro ⟨read, htext, ⟨hleast, hmost⟩, hall⟩
    refine ⟨read.length - least, hmost, times_chars.mpr ⟨read, htext, by omega, hall⟩⟩

/-- Two ways to split a text at the first occurrence of a character. -/
theorem append_cons_inj {c : Char} {left right left' right' : Text} (hleft : c ∉ left)
    (hleft' : c ∉ left') (heq : left ++ c :: right = left' ++ c :: right') :
    left = left' ∧ right = right' := by
  induction left generalizing left' with
  | nil =>
      cases left' with
      | nil => exact ⟨rfl, (List.cons.inj heq).2⟩
      | cons d left' =>
          obtain ⟨rfl, -⟩ := List.cons.inj heq
          exact absurd List.mem_cons_self hleft'
  | cons d left ih =>
      cases left' with
      | nil =>
          obtain ⟨rfl, -⟩ := List.cons.inj heq
          exact absurd List.mem_cons_self hleft
      | cons d' left' =>
          obtain ⟨rfl, hrest⟩ := List.cons.inj heq
          obtain ⟨rfl, rfl⟩ := ih (List.not_mem_of_not_mem_cons hleft)
            (List.not_mem_of_not_mem_cons hleft') hrest
          exact ⟨rfl, rfl⟩

/-- A field goes up to the first character that cannot be part of it. -/
theorem leads_field {least : Nat} {most : Option Nat} {greedy : Bool} {c : Char} {after : Expr}
    (hc : set.contains c = false) {field : Text} (hfield : c ∉ field) :
    (Expr.seq (.repetition least most greedy (.chars set))
        (.seq (.chars (.single c)) after)).Leads total (field ++ c :: text) rest ↔
      (Allowed least most field.length ∧ ∀ d ∈ field, set.contains d = true) ∧
        after.Leads total text rest := by
  constructor
  · rintro ⟨middle, hrepetition, next, ⟨d, hd, hmiddle⟩, hafter⟩
    obtain ⟨read, hread, hallowed, hall⟩ := leads_repetition_chars.mp hrepetition
    obtain rfl := (single_contains c d).mp hd
    rw [hmiddle] at hread
    -- both ways to split the text end at the first `c`
    have hnotRead : d ∉ read := by
      intro hmem
      rw [hall d hmem] at hc
      exact absurd hc (by simp)
    obtain ⟨rfl, htext⟩ := append_cons_inj hfield hnotRead hread
    exact ⟨⟨hallowed, hall⟩, htext ▸ hafter⟩
  · rintro ⟨⟨hallowed, hall⟩, hafter⟩
    refine ⟨c :: text, leads_repetition_chars.mpr ⟨field, rfl, hallowed, hall⟩, text, ?_, hafter⟩
    exact leads_chars_cons.mpr ⟨(single_contains c c).mpr rfl, rfl⟩

/-- A field at the end of the input. -/
theorem leads_lastField {least : Nat} {most : Option Nat} {greedy : Bool} :
    (Expr.seq (.repetition least most greedy (.chars set))
        (.seq .inputEnd .empty)).Leads total text [] ↔
      Allowed least most text.length ∧ ∀ c ∈ text, set.contains c = true := by
  constructor
  · rintro ⟨middle, hrepetition, next, ⟨rfl, hend⟩, -⟩
    obtain ⟨read, hread, hallowed, hall⟩ := leads_repetition_chars.mp hrepetition
    subst hend
    rw [List.append_nil] at hread
    subst hread
    exact ⟨hallowed, hall⟩
  · rintro ⟨hallowed, hall⟩
    exact ⟨[], leads_repetition_chars.mpr ⟨text, (List.append_nil text).symm, hallowed, hall⟩,
      [], ⟨rfl, rfl⟩, rfl⟩

theorem leads_seq_empty {left right : Expr} :
    (Expr.seq (.seq left .empty) right).Leads total text rest ↔
      (Expr.seq left right).Leads total text rest := by
  constructor
  · rintro ⟨middle, ⟨_, hleft, rfl⟩, hright⟩
    exact ⟨middle, hleft, hright⟩
  · rintro ⟨middle, hleft, hright⟩
    exact ⟨middle, ⟨middle, hleft, rfl⟩, hright⟩

theorem leads_then_empty {left : Expr} :
    (Expr.seq left .empty).Leads total text rest ↔ left.Leads total text rest := by
  constructor
  · rintro ⟨middle, hleft, rfl⟩
    exact hleft
  · exact fun hleft => ⟨rest, hleft, rfl⟩

theorem leads_char {c : Char} {after : Expr} :
    (Expr.seq (.chars set) after).Leads total (c :: text) rest ↔
      set.contains c = true ∧ after.Leads total text rest := by
  constructor
  · rintro ⟨middle, hmiddle, hafter⟩
    obtain ⟨hc, rfl⟩ := leads_chars_cons.mp hmiddle
    exact ⟨hc, hafter⟩
  · rintro ⟨hc, hafter⟩
    exact ⟨text, leads_chars_cons.mpr ⟨hc, rfl⟩, hafter⟩

theorem leads_start {after : Expr} :
    (Expr.seq .inputStart after).Leads total text rest ↔
      text.length = total ∧ after.Leads total text rest := by
  constructor
  · rintro ⟨middle, ⟨rfl, hstart⟩, hafter⟩
    exact ⟨hstart, hafter⟩
  · rintro ⟨hstart, hafter⟩
    exact ⟨text, ⟨rfl, hstart⟩, hafter⟩

end Fields

/-! ## Replacing characters -/

/-- Each character is replaced or not for what it is and what follows it. -/
def replaceOne (hit : Char → Text → Bool) (by' : Text) : Text → Text
  | [] => []
  | c :: rest => (if hit c rest then by' else [c]) ++ replaceOne hit by' rest

/-- A pattern that matches one character at a time. -/
theorem replaceFrom_one {expr : Expr} {total : Nat} {hit : Char → Text → Bool}
    (hrun : ∀ c rest, (expr.run total ⟨c :: rest, []⟩).head?.map Position.rest =
      if hit c rest then some rest else none) (by' text : Text) :
    replaceFrom expr by' total text.length text = replaceOne hit by' text := by
  induction text with
  | nil => rfl
  | cons c rest ih =>
      have hfirst := hrun c rest
      rw [List.length_cons, replaceFrom, replaceOne]
      cases hhead : (expr.run total ⟨c :: rest, []⟩).head? with
      | none =>
          rw [hhead] at hfirst
          have hnot : hit c rest = false := by
            by_contra hhit
            rw [if_pos (by simpa using hhit)] at hfirst
            cases hfirst
          simp [hnot, ih]
      | some next =>
          rw [hhead, Option.map_some] at hfirst
          have hhit : hit c rest = true := by
            by_contra hnot
            rw [if_neg hnot] at hfirst
            cases hfirst
          rw [if_pos hhit, Option.some.injEq] at hfirst
          simp [hhit, hfirst, ih]

section Replacing

variable (set : CharSet) (by' : Text)

/-- Every character of a set is replaced. -/
theorem replaceAll_chars (text : Text) :
    replaceAll (.seq (.chars set) .empty) by' text =
      text.flatMap fun c => if set.contains c then by' else [c] := by
  have hfrom : ∀ total text, replaceFrom (.seq (.chars set) .empty) by' total text.length text =
      text.flatMap fun c => if set.contains c then by' else [c] := by
    intro total text
    induction text with
    | nil => rfl
    | cons c rest ih =>
        rw [List.flatMap_cons, List.length_cons, replaceFrom, run_seq, run_chars_cons]
        by_cases hc : set.contains c
        · simp [hc, ih]
        · simp [hc, ih]
  exact hfrom text.length text

/-- Only the last character of a text is replaced. -/
theorem replaceAll_last (text : Text) (last : Char) :
    replaceAll (.seq (.chars set) (.seq .inputEnd .empty)) by' (text ++ [last]) =
      text ++ if set.contains last then by' else [last] := by
  have hfrom : ∀ total text, replaceFrom (.seq (.chars set) (.seq .inputEnd .empty)) by' total
      (text ++ [last]).length (text ++ [last]) =
        text ++ if set.contains last then by' else [last] := by
    intro total text
    induction text with
    | nil =>
        by_cases hlast : set.contains last
        · simp [replaceFrom, run_seq, run_chars_cons, run_inputEnd, hlast]
        · simp [replaceFrom, run_seq, run_chars_cons, hlast]
    | cons c rest ih =>
        have hnone : (Expr.seq (.chars set) (.seq .inputEnd .empty)).run total
            ⟨c :: (rest ++ [last]), []⟩ = [] := by
          by_cases hc : set.contains c
          · simp [run_seq, run_chars_cons, run_inputEnd, hc]
          · simp [run_seq, run_chars_cons, hc]
        rw [List.cons_append, List.length_cons, replaceFrom, hnone, List.cons_append, ← ih]
        rfl
  exact hfrom _ text

end Replacing

end Regex

end PdsBackup
