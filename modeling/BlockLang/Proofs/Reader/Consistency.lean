import BlockLang.Proofs.Token.Decomposition
import BlockLang.Token.Reader
import Mathlib.Data.List.Induction

/-! Readers under any mix of steps. A reader stands somewhere in its text, and its place counts what
is before it; what it will read are the tokens of what is after it. Looking ahead and moving past
gaps change none of these tokens. -/

namespace BlockLang

open Token

theorem Place.position_foldl_advance (p : Place) (cs : List Char) :
    (cs.foldl advance p).position = p.position + cs.length := by
  induction cs generalizing p with
  | nil => rfl
  | cons c cs ih =>
    rw [List.foldl_cons, ih, List.length_cons, advance]
    split <;> simp only <;> omega

/-- The place after some characters counts them, the line feeds among them, and the characters
after the last of these. -/
theorem Place.foldl_advance (cs : List Char) : cs.foldl advance start =
    ⟨cs.length, 1 + cs.count '\n', 1 + (cs.reverse.takeWhile (· ≠ '\n')).length⟩ := by
  induction cs using List.reverseRecOn with
  | nil => rfl
  | append_singleton cs c ih =>
    rw [List.foldl_append, ih, List.foldl_cons, List.foldl_nil, advance]
    by_cases hc : c = '\n'
    · simp [hc, Nat.add_assoc]
    · simp [hc, Nat.add_comm]

theorem Token.afterGap_afterGap (cs : List Char) : afterGap (afterGap cs) = afterGap cs := by
  have hhead := head_splitGap false cs
  rw [← afterGap] at hhead
  cases hcs : afterGap cs with
  | nil => rfl
  | cons c rest =>
    obtain ⟨hb, hc⟩ := hhead c (by simp [hcs])
    simp [afterGap, splitGap, hb, hc]

namespace Reader

variable {r r' r'' : Reader} {a : Action}

/-- Performs steps one after another, whether they succeed or fail. -/
def run (r : Reader) (as : List Action) : Reader := as.foldl (fun r a => (r.perform a).2) r

/-- The answers to steps performed one after another. -/
def answers (r : Reader) : List Action → List (Except PastEnd Answer)
  | [] => []
  | a :: as => (r.perform a).1 :: (r.perform a).2.answers as

@[simp] theorem run_nil (r : Reader) : r.run [] = r := rfl

@[simp] theorem run_cons (r : Reader) (a : Action) (as : List Action) :
    r.run (a :: as) = (r.perform a).2.run as := rfl

/-! ### Places -/

/-- A reader comes from another one by moving over the characters between them. -/
def Moves (r r' : Reader) : Prop :=
  ∃ taken, r.rest = taken ++ r'.rest ∧ r' = r.moveOver taken r'.rest

theorem moves_moveOver {taken rest : List Char} (h : taken ++ rest = r.rest) :
    r.Moves (r.moveOver taken rest) :=
  ⟨taken, h.symm, rfl⟩

theorem Moves.refl (r : Reader) : r.Moves r := ⟨[], rfl, rfl⟩

theorem Moves.trans (h : r.Moves r') (h' : r'.Moves r'') : r.Moves r'' := by
  obtain ⟨taken, hr, hr'⟩ := h
  obtain ⟨more, hm, hm'⟩ := h'
  refine ⟨taken ++ more, by rw [hr, hm, List.append_assoc], ?_⟩
  rw [hm', hr']
  simp [moveOver]

theorem moves_skipGap (r : Reader) : r.Moves r.skipGap :=
  moves_moveOver (splitGap_append false r.rest)

theorem moves_nextToken (r : Reader) : r.Moves r.nextToken.2 := by
  refine (moves_skipGap r).trans ?_
  unfold nextToken
  cases h : splitToken r.skipGap.rest with
  | none => simpa [h] using Moves.refl _
  | some split =>
    simp only [h]
    exact moves_moveOver (splitToken_append h)

/-- Every step moves over some characters. -/
theorem moves_perform (r : Reader) (a : Action) : r.Moves (r.perform a).2 := by
  cases a with
  | next =>
    unfold perform next
    cases h : r.rest with
    | nil => exact .refl r
    | cons c rest => exact moves_moveOver h.symm
  | peek => exact .refl r
  | atEnd => exact .refl r
  | skipGap => exact moves_skipGap r
  | nextToken => exact moves_nextToken r

theorem moves_run (r : Reader) (as : List Action) : r.Moves (r.run as) := by
  induction as generalizing r with
  | nil => exact .refl r
  | cons a as ih => exact (moves_perform r a).trans (ih _)

theorem Moves.position_le (h : r.Moves r') : r.place.position ≤ r'.place.position := by
  obtain ⟨taken, -, hr⟩ := h
  rw [hr, moveOver, Place.position_foldl_advance]
  exact Nat.le_add_right _ _

/-- A reader of a text stands before what is left of it, and its place counts what is not. -/
theorem Moves.place_eq {source : String} (h : (ofSource source).Moves r) :
    ∃ taken, source.toList = taken ++ r.rest ∧ r.place =
      ⟨taken.length, 1 + taken.count '\n', 1 + (taken.reverse.takeWhile (· ≠ '\n')).length⟩ := by
  obtain ⟨taken, hsource, hr⟩ := h
  refine ⟨taken, hsource, ?_⟩
  rw [← Place.foldl_advance, hr]
  rfl

/-! ### Tokens -/

theorem lexemes_skipGap (r : Reader) : lexemes r.skipGap.rest = lexemes r.rest :=
  lexemes_congr (afterGap_afterGap r.rest)

/-- The token that is read is the first one of what is left, and the others are left then. -/
theorem nextToken_eq (r : Reader) :
    r.nextToken.1 = ((lexemes r.rest).map String.ofList).head? ∧
      lexemes r.nextToken.2.rest = (lexemes r.rest).tail := by
  have hrest : r.skipGap.rest = afterGap r.rest := rfl
  unfold nextToken
  cases h : splitToken (afterGap r.rest) with
  | none =>
    have hnil : lexemes r.rest = [] := by
      rw [lexemes]
      split <;> simp_all
    have hgap : lexemes (afterGap r.rest) = [] := (lexemes_skipGap r).trans hnil
    simp [hrest, h, hnil, hgap]
  | some split =>
    obtain ⟨token, rest⟩ := split
    simp [hrest, h, lexemes_of_splitToken h, moveOver]

/-- Reading tokens over and over gives the tokens of what is left, and then no token. -/
theorem answers_nextToken (r : Reader) (n : Nat) :
    r.answers (List.replicate n .nextToken) = (List.range n).map fun i =>
      .ok (.token ((lexemes r.rest).map String.ofList)[i]?) := by
  induction n generalizing r with
  | zero => rfl
  | succ n ih =>
    obtain ⟨hfirst, hrest⟩ := nextToken_eq r
    have hstep : r.perform .nextToken = (.ok (.token r.nextToken.1), r.nextToken.2) := rfl
    rw [List.replicate_succ, answers, hstep, ih, hrest, hfirst, List.range_succ_eq_map,
      List.map_cons, List.map_map]
    congr 1
    · rw [List.head?_eq_getElem?]
    · refine List.map_congr_left fun i _ => ?_
      simp [List.getElem?_tail]

/-! ### Looking -/

/-- A step that takes no character of a token. -/
def Action.looks : Action → Bool
  | peek | atEnd | skipGap => true
  | next | nextToken => false

theorem lexemes_run_of_looks {as : List Action} (h : ∀ a ∈ as, a.looks) (r : Reader) :
    lexemes (r.run as).rest = lexemes r.rest := by
  induction as generalizing r with
  | nil => rfl
  | cons a as ih =>
    rw [List.forall_mem_cons] at h
    rw [run_cons, ih h.2]
    cases a with
    | peek => rfl
    | atEnd => rfl
    | skipGap => exact lexemes_skipGap r
    | next => cases h.1
    | nextToken => cases h.1

/-- Only reading a character fails, and only at the end. -/
theorem perform_eq (r : Reader) (a : Action) :
    if a = .next ∧ r.rest = [] then
      r.perform a = (.error ⟨r.place.line, r.place.column⟩, r)
    else ∃ answer, (r.perform a).1 = .ok answer := by
  cases a with
  | next =>
    cases h : r.rest <;> simp [perform, next, h, Except.map]
  | peek => simp [perform]
  | atEnd => simp [perform]
  | skipGap => simp [perform]
  | nextToken => simp [perform]

/-! ### Any mix of steps -/

/-- After any steps, failed ones included, a reader is inside its text, and its line and column are
those of the characters before it. A further step never takes it back, and fails only if it is to
read a character after the last one; then it changes nothing. However often one looks ahead or moves
past a gap, reading tokens gives those of the text after the reader, and no token after the last. -/
theorem run_consistent (source : String) (as : List Action) :
    let r := (ofSource source).run as
    let before := source.toList.take r.place.position
    let after := source.toList.drop r.place.position
    r.place.position ≤ source.length ∧
      r.place.line = 1 + before.count '\n' ∧
      r.place.column = 1 + (before.reverse.takeWhile (· ≠ '\n')).length ∧
      (∀ a, r.place.position ≤ (r.perform a).2.place.position ∧
        if a = .next ∧ r.place.position = source.length then
          r.perform a = (.error ⟨r.place.line, r.place.column⟩, r)
        else ∃ answer, (r.perform a).1 = .ok answer) ∧
      ∃ ts, streamOf (String.ofList after) = ts ++ [endOfInput] ∧
        ∀ looks : List Action, (∀ a ∈ looks, a.looks) → ∀ n,
          (r.run looks).answers (List.replicate n .nextToken) =
            (List.range n).map fun i => .ok (.token ts[i]?) := by
  intro r before after
  obtain ⟨taken, hsource, hplace⟩ := (moves_run (ofSource source) as).place_eq
  have hposition : r.place.position = taken.length := congrArg Place.position hplace
  have hbefore : before = taken := by simp [before, hposition, hsource]
  have hafter : after = r.rest := by simp [after, hposition, hsource, r]
  have hlength : source.length = taken.length + r.rest.length := by
    rw [← String.length_toList, hsource, List.length_append]
  have hend : r.place.position = source.length ↔ r.rest = [] := by
    rw [hposition, hlength, ← List.length_eq_zero_iff]
    omega
  refine ⟨by omega, ?_, ?_, fun a => ⟨(moves_perform r a).position_le, ?_⟩, ?_⟩
  · rw [hbefore]
    exact congrArg Place.line hplace
  · rw [hbefore]
    exact congrArg Place.column hplace
  · simp only [hend]
    exact perform_eq r a
  · refine ⟨Token.ofSource (String.ofList after), rfl, fun looks hlooks n => ?_⟩
    rw [answers_nextToken, lexemes_run_of_looks hlooks, Token.ofSource, String.toList_ofList,
      hafter]

end Reader

end BlockLang
