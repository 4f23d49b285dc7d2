import Mathlib.Data.List.Basic
import Mathlib.Tactic.Common

/-!
# Sliding windows

A sender that does not wait for the answer to a request before it makes the next
one keeps what it has asked for in a window.  Answers carry no reference to a
request: they come in the order of the requests, so an answer belongs to the
head of the window as long as the window and the unanswered requests agree.
-/

namespace PdsBackup

/-- The entries of a window, the requests made, and the number of answers taken. -/
structure SlidingWindow (ε ρ : Type) where
  waiting : List ε
  asked : List ρ
  answered : Nat

namespace SlidingWindow

variable {ε ρ : Type}

def unanswered (window : SlidingWindow ε ρ) : List ρ := window.asked.drop window.answered

section Request

variable (request : ε → Option ρ)

/-- The window is the list of the unanswered requests. -/
structure Aligned (window : SlidingWindow ε ρ) : Prop where
  answered_le : window.answered ≤ window.asked.length
  requests : window.waiting.map request = window.unanswered.map some

/-- What can happen to a window: a request is made for a new entry; an answer
settles the head; an answer makes the head a new entry at the tail. -/
inductive Move : SlidingWindow ε ρ → SlidingWindow ε ρ → Prop
  | ask {window : SlidingWindow ε ρ} {entry : ε} {asked : ρ} (hasked : request entry = some asked) :
      Move window
        { window with
          waiting := window.waiting ++ [entry]
          asked := window.asked ++ [asked] }
  | settle {window : SlidingWindow ε ρ} {head : ε} {others : List ε}
      (hwaiting : window.waiting = head :: others) :
      Move window { window with waiting := others, answered := window.answered + 1 }
  | succeed {window : SlidingWindow ε ρ} {head entry : ε} {others : List ε} {asked : ρ}
      (hwaiting : window.waiting = head :: others) (hasked : request entry = some asked) :
      Move window
        { waiting := others ++ [entry]
          asked := window.asked ++ [asked]
          answered := window.answered + 1 }

end Request

variable {request : ε → Option ρ} {window next : SlidingWindow ε ρ}

theorem Aligned.of_nothing (hwaiting : window.waiting = []) (hasked : window.asked = [])
    (hanswered : window.answered = 0) : Aligned request window where
  answered_le := by rw [hanswered]; exact Nat.zero_le _
  requests := by simp [unanswered, hwaiting, hasked]

/-- As many entries wait as requests are unanswered. -/
theorem Aligned.length_waiting (haligned : Aligned request window) :
    window.waiting.length + window.answered = window.asked.length := by
  have hlengths := congrArg List.length haligned.requests
  have hle := haligned.answered_le
  simp only [unanswered, List.length_map, List.length_drop] at hlengths
  omega

theorem Aligned.waiting_ne_nil (haligned : Aligned request window)
    (houtstanding : window.answered < window.asked.length) : window.waiting ≠ [] := by
  rintro hnil
  have hlength := haligned.length_waiting
  rw [hnil, List.length_nil] at hlength
  omega

/-- The next answer is to the request of the head. -/
theorem Aligned.request_head (haligned : Aligned request window) {head : ε} {others : List ε}
    (hwaiting : window.waiting = head :: others) :
    ∃ asked, request head = some asked ∧ window.asked[window.answered]? = some asked ∧
      others.map request = (window.asked.drop (window.answered + 1)).map some := by
  have hrequests := haligned.requests
  rw [hwaiting, unanswered, List.map_cons] at hrequests
  cases hdrop : window.asked.drop window.answered with
  | nil => simp [hdrop] at hrequests
  | cons asked rest =>
      rw [hdrop, List.map_cons, List.cons.injEq] at hrequests
      have hget := congrArg List.head? hdrop
      rw [List.head?_drop] at hget
      refine ⟨asked, hrequests.1, hget, ?_⟩
      rw [← List.drop_drop, hdrop]
      exact hrequests.2

/-- Every move keeps the window and the unanswered requests together. -/
theorem Aligned.move (haligned : Aligned request window) (hmove : Move request window next) :
    Aligned request next := by
  have hle := haligned.answered_le
  cases hmove with
  | ask hasked =>
      constructor
      · simp only [List.length_append, List.length_singleton]
        omega
      · simp only [unanswered]
        rw [List.map_append, haligned.requests, unanswered, List.drop_append_of_le_length hle,
          List.map_append, List.map_singleton, hasked, List.map_singleton]
  | settle hwaiting =>
      obtain ⟨asked, _, _, hothers⟩ := haligned.request_head hwaiting
      constructor
      · have hlength := haligned.length_waiting
        rw [hwaiting, List.length_cons] at hlength
        simp only
        omega
      · exact hothers
  | succeed hwaiting hasked =>
      obtain ⟨_, _, _, hothers⟩ := haligned.request_head hwaiting
      have hlength := haligned.length_waiting
      rw [hwaiting, List.length_cons] at hlength
      constructor
      · simp only [List.length_append, List.length_singleton]
        omega
      · simp only [unanswered]
        rw [List.map_append, hothers, List.drop_append_of_le_length (by omega), List.map_append,
          List.map_singleton, hasked, List.map_singleton]

/-- Every unanswered request has an entry, if not its own. -/
def Covers (window : SlidingWindow ε ρ) : Prop :=
  window.asked.length ≤ window.answered + window.waiting.length

theorem Covers.move (hcovers : window.Covers) (hmove : Move request window next) :
    next.Covers := by
  rw [Covers] at hcovers ⊢
  cases hmove with
  | ask hasked =>
      simp only [List.length_append, List.length_singleton]
      omega
  | settle hwaiting =>
      rw [hwaiting, List.length_cons] at hcovers
      simp only
      omega
  | succeed hwaiting hasked =>
      rw [hwaiting, List.length_cons] at hcovers
      simp only [List.length_append, List.length_singleton]
      omega

theorem Covers.waiting_ne_nil (hcovers : window.Covers)
    (houtstanding : window.answered < window.asked.length) : window.waiting ≠ [] := by
  intro hnil
  rw [Covers, hnil, List.length_nil] at hcovers
  omega

end SlidingWindow

end PdsBackup
