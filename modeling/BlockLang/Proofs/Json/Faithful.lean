import BlockLang.Proofs.Grammar
import BlockLang.Proofs.Json.Escape
import BlockLang.Session

/-! JSON texts determine what they were written from. The first character of a text tells what kind
of value it is, and the character after an item whether another one follows; so, under any indent,
a value can be read off the front of any text. Trees can be told apart by their objects, hence by
the texts of these. -/

namespace BlockLang

namespace Json

open Text

variable {indent : Option Int} {level : Nat} {left right c : Char} {cs items items' r s : List Char}

/-! ### Layout -/

/-- A line break brings about no character but a line feed. -/
theorem lineBreak_append_ne (hc : c ≠ '\n') (h : ∀ t, cs ≠ c :: t) :
    lineBreak indent level ++ cs ≠ c :: r := by
  cases indent with
  | none => exact h r
  | some _ => exact fun heq => hc (List.cons.inj heq).1.symm

/-- A text that does not go on with another item. -/
def Closed (cs : List Char) : Prop := ∀ t, cs ≠ ',' :: t

theorem Closed.ne_separator_append (h : Closed r) : r ≠ separator indent level ++ cs := by
  cases indent with
  | none => exact h _
  | some _ => exact h _

theorem closed_lineBreak_append (h : right ≠ ',') :
    Closed (lineBreak indent level ++ right :: r) := fun _ =>
  lineBreak_append_ne (by decide) fun _ heq => h (List.cons.inj heq).1

theorem enclose_append (items r : List Char) :
    enclose indent level left right items ++ r = left :: (lineBreak indent (level + 1) ++
      (items ++ (lineBreak indent level ++ right :: r))) := by
  simp [enclose]

theorem enclose_append_inj
    (h : enclose indent level left right items ++ r = enclose indent level left right items' ++ s) :
    items ++ (lineBreak indent level ++ right :: r) =
      items' ++ (lineBreak indent level ++ right :: s) := by
  rw [enclose_append, enclose_append] at h
  exact List.append_cancel_left (List.cons.inj h).2

/-- Brackets around items are not taken for brackets around nothing. -/
theorem enclose_append_ne (hright : right ≠ '\n') (hitems : ∀ t t', items ++ t ≠ right :: t') :
    enclose indent level left right items ++ r ≠ left :: right :: s := by
  rw [enclose_append]
  exact fun h => lineBreak_append_ne hright (hitems _) (List.cons.inj h).2

/-! ### Values -/

/-- The first character of the text of a value. -/
def lead : Json → Char
  | null => 'n'
  | str _ => '\x22'
  | arr _ => '['
  | obj _ => '\x7b'

theorem write_append (indent : Option Int) (level : Nat) (j : Json) (r : List Char) :
    ∃ t, write indent level j ++ r = j.lead :: t := by
  cases j with
  | null => exact ⟨_, rfl⟩
  | str _ => exact ⟨_, rfl⟩
  | arr xs => cases xs <;> exact ⟨_, rfl⟩
  | obj fields => cases fields <;> exact ⟨_, rfl⟩

theorem write_append_ne (hc : c ∉ ['n', '\x22', '[', '\x7b']) (j : Json) :
    write indent level j ++ r ≠ c :: s := by
  obtain ⟨t, ht⟩ := write_append indent level j r
  rw [ht]
  intro heq
  apply hc
  rw [← (List.cons.inj heq).1]
  cases j <;> simp [lead]

theorem lead_eq_of_write_append {a b : Json}
    (h : write indent level a ++ r = write indent level b ++ s) : a.lead = b.lead := by
  obtain ⟨t, ht⟩ := write_append indent level a r
  obtain ⟨t', ht'⟩ := write_append indent level b s
  rw [ht, ht'] at h
  exact (List.cons.inj h).1

mutual
/-- A value can be read off the front of any text. -/
theorem write_append_inj (a b : Json) {level : Nat} {r s : List Char}
    (h : write indent level a ++ r = write indent level b ++ s) : a = b ∧ r = s := by
  have hlead := lead_eq_of_write_append h
  match a, b with
  | null, null => exact ⟨rfl, List.append_cancel_left h⟩
  | str v, str w =>
    obtain ⟨rfl, hrest⟩ := quote_append_inj h
    exact ⟨rfl, hrest⟩
  | arr [], arr [] => exact ⟨rfl, List.append_cancel_left h⟩
  | arr [], arr (y :: ys) =>
    refine absurd h.symm (enclose_append_ne (by decide) fun t t' => ?_)
    rw [List.append_assoc]
    exact write_append_ne (by decide) y
  | arr (x :: xs), arr [] =>
    refine absurd h (enclose_append_ne (by decide) fun t t' => ?_)
    rw [List.append_assoc]
    exact write_append_ne (by decide) x
  | arr (x :: xs), arr (y :: ys) =>
    have hitems := enclose_append_inj h
    rw [List.append_assoc, List.append_assoc] at hitems
    obtain ⟨rfl, hrest⟩ := write_append_inj x y hitems
    obtain ⟨rfl, hclose⟩ := writeItems_append_inj xs ys (closed_lineBreak_append (by decide))
      (closed_lineBreak_append (by decide)) hrest
    exact ⟨rfl, (List.cons.inj (List.append_cancel_left hclose)).2⟩
  | obj [], obj [] => exact ⟨rfl, List.append_cancel_left h⟩
  | obj [], obj ((key, y) :: ys) =>
    exact absurd h.symm (enclose_append_ne (by decide) fun t t' => by simp [quote])
  | obj ((key, x) :: xs), obj [] =>
    exact absurd h (enclose_append_ne (by decide) fun t t' => by simp [quote])
  | obj ((key, x) :: xs), obj ((key', y) :: ys) =>
    have hitems := enclose_append_inj h
    simp only [List.append_assoc, List.cons_append] at hitems
    obtain ⟨rfl, hvalue⟩ := quote_append_inj hitems
    obtain ⟨rfl, hrest⟩ := write_append_inj x y (List.cons.inj (List.cons.inj hvalue).2).2
    obtain ⟨rfl, hclose⟩ := writeFields_append_inj xs ys (closed_lineBreak_append (by decide))
      (closed_lineBreak_append (by decide)) hrest
    exact ⟨rfl, (List.cons.inj (List.append_cancel_left hclose)).2⟩
  | null, str _ | null, arr _ | null, obj _ | str _, null | str _, arr _ | str _, obj _
  | arr _, null | arr _, str _ | arr _, obj _ | obj _, null | obj _, str _ | obj _, arr _ =>
    simp [lead] at hlead

theorem writeItems_append_inj (xs ys : List Json) {level : Nat} {r s : List Char} (hr : Closed r)
    (hs : Closed s) (h : writeItems indent level xs ++ r = writeItems indent level ys ++ s) :
    xs = ys ∧ r = s := by
  match xs, ys with
  | [], [] => exact ⟨rfl, h⟩
  | [], y :: ys =>
    simp only [writeItems, List.nil_append, List.append_assoc] at h
    exact absurd h hr.ne_separator_append
  | x :: xs, [] =>
    simp only [writeItems, List.nil_append, List.append_assoc] at h
    exact absurd h.symm hs.ne_separator_append
  | x :: xs, y :: ys =>
    simp only [writeItems, List.append_assoc] at h
    obtain ⟨rfl, hrest⟩ := write_append_inj x y (List.append_cancel_left h)
    obtain ⟨rfl, hrs⟩ := writeItems_append_inj xs ys hr hs hrest
    exact ⟨rfl, hrs⟩

theorem writeFields_append_inj (xs ys : List (String × Json)) {level : Nat} {r s : List Char}
    (hr : Closed r) (hs : Closed s)
    (h : writeFields indent level xs ++ r = writeFields indent level ys ++ s) :
    xs = ys ∧ r = s := by
  match xs, ys with
  | [], [] => exact ⟨rfl, h⟩
  | [], (key, y) :: ys =>
    simp only [writeFields, List.nil_append, List.append_assoc] at h
    exact absurd h hr.ne_separator_append
  | (key, x) :: xs, [] =>
    simp only [writeFields, List.nil_append, List.append_assoc] at h
    exact absurd h.symm hs.ne_separator_append
  | (key, x) :: xs, (key', y) :: ys =>
    simp only [writeFields, List.append_assoc, List.cons_append] at h
    obtain ⟨rfl, hvalue⟩ := quote_append_inj (List.append_cancel_left h)
    obtain ⟨rfl, hrest⟩ := write_append_inj x y (List.cons.inj (List.cons.inj hvalue).2).2
    obtain ⟨rfl, hrs⟩ := writeFields_append_inj xs ys hr hs hrest
    exact ⟨rfl, hrs⟩
end

theorem text_inj {a b : Json} (h : a.text indent = b.text indent) : a = b := by
  have hwrite : write indent 0 a ++ [] = write indent 0 b ++ [] := by
    rw [String.ofList_injective h]
  exact (write_append_inj a b hwrite).1

/-! ### Characters -/

theorem isAscii_lineBreak (indent : Option Int) (level : Nat) :
    IsAscii (lineBreak indent level) := by
  cases indent with
  | none => exact isAscii_nil
  | some n =>
    refine isAscii_cons.2 ⟨by decide, fun c hc => ?_⟩
    rw [List.eq_of_mem_replicate hc]
    decide

theorem isAscii_separator (indent : Option Int) (level : Nat) :
    IsAscii (separator indent level) := by
  cases indent with
  | none => exact show IsAscii [',', ' '] by decide
  | some _ => exact isAscii_cons.2 ⟨by decide, isAscii_lineBreak _ _⟩

theorem isAscii_enclose (hleft : left.toNat < 0x80) (hright : right.toNat < 0x80)
    (hitems : IsAscii items) : IsAscii (enclose indent level left right items) := by
  simp only [enclose, List.cons_append, List.append_assoc, isAscii_append, isAscii_cons]
  exact ⟨hleft, isAscii_lineBreak _ _, hitems, isAscii_lineBreak _ _, hright, isAscii_nil⟩

mutual
/-- JSON texts are ASCII, whatever strings the values contain. -/
theorem isAscii_write (level : Nat) (j : Json) : IsAscii (write indent level j) := by
  match j with
  | null => exact show IsAscii "null".toList by decide
  | str v => exact isAscii_quote v
  | arr [] => exact show IsAscii ['[', ']'] by decide
  | arr (x :: xs) =>
    have hitems := isAscii_append.2 ⟨isAscii_write (level + 1) x, isAscii_writeItems (level + 1) xs⟩
    exact isAscii_enclose (by decide) (by decide) hitems
  | obj [] => exact show IsAscii ['\x7b', '\x7d'] by decide
  | obj ((key, x) :: fields) =>
    refine isAscii_enclose (by decide) (by decide) ?_
    simp only [isAscii_append, isAscii_cons]
    exact ⟨⟨isAscii_quote key, by decide, by decide, isAscii_write (level + 1) x⟩,
      isAscii_writeFields (level + 1) fields⟩

theorem isAscii_writeItems (level : Nat) (xs : List Json) :
    IsAscii (writeItems indent level xs) := by
  match xs with
  | [] => exact isAscii_nil
  | x :: xs =>
    simp only [writeItems, isAscii_append]
    exact ⟨⟨isAscii_separator _ _, isAscii_write level x⟩, isAscii_writeItems level xs⟩

theorem isAscii_writeFields (level : Nat) (fields : List (String × Json)) :
    IsAscii (writeFields indent level fields) := by
  match fields with
  | [] => exact isAscii_nil
  | (key, x) :: fields =>
    simp only [writeFields, isAscii_append, isAscii_cons]
    exact ⟨⟨⟨isAscii_separator _ _, isAscii_quote key⟩, by decide, by decide,
      isAscii_write level x⟩, isAscii_writeFields level fields⟩
end

theorem isAscii_text (indent : Option Int) (j : Json) : IsAscii (j.text indent).toList := by
  rw [text, String.toList_ofList]
  exact isAscii_write 0 j

end Json

/-! ### Trees -/

theorem Kind.label_injective : Function.Injective Kind.label := fun k l h => by
  have hlabel : ∀ m ∈ Kind.all, ∀ n ∈ Kind.all, m.label = n.label → m = n := by decide
  exact hlabel k (by cases k <;> decide) l (by cases l <;> decide) h

theorem Condition.token_injective : Function.Injective Condition.token := fun c d h => by
  have hc := Condition.ofToken?_token c
  rw [h, Condition.ofToken?_token d] at hc
  exact (Option.some.inj hc).symm

/-! ### Texts that are given -/

section Fits

variable {m : Machine} {value : Json}

/-- There is room on a machine for writing a value with an indent: for its objects and arrays inside
one another, for the spaces of one level, and for those of the innermost line. -/
structure Json.Fits (m : Machine) (indent : Option Int) (value : Json) : Prop where
  depth : value.depth ≤ m.calls .encoding
  level : ∀ n ∈ indent, IsIndex n ∧ n ≤ m.characters
  innermost : ∀ n ∈ indent, IsIndex value.breakLevel ∧ IsIndex (n.toNat * value.breakLevel) ∧
    n.toNat * value.breakLevel ≤ m.characters

theorem PrintError.requireSpaces_eq_ok_iff {spaces : Nat} {count : Int} :
    requireSpaces m spaces count = .ok () ↔ IsIndex count ∧
      IsIndex (spaces * count.toNat) ∧ spaces * count.toNat ≤ m.characters := by
  rw [← Text.requireRepeatable_eq_ok_iff, requireSpaces]
  cases Text.requireRepeatable m spaces count <;> simp [Except.mapError]

theorem PrintError.requireDepth_eq_ok_iff :
    requireDepth m value = .ok () ↔ value.depth ≤ m.calls .encoding := by
  rw [requireDepth]
  split <;> simp_all

/-- A text that is given after a requirement. -/
theorem bind_eq_ok_iff {a : Except PrintError Unit} {b : Except PrintError String} {t : String} :
    (a >>= fun _ => b) = .ok t ↔ a = .ok () ∧ b = .ok t := by
  cases a <;> simp [bind, Except.bind]

/-- A value is written as its text where there is room for that, and not written otherwise. -/
theorem Json.encode_eq_ok_iff (indent : Option Int) (t : String) :
    value.encode m indent = .ok t ↔ value.Fits m indent ∧ t = value.text indent := by
  have htext : Except.ok (value.text indent) = (Except.ok t : Except PrintError String) ↔
      t = value.text indent := by
    rw [Except.ok.injEq]
    exact eq_comm
  cases indent with
  | none =>
    have hencode : value.encode m none =
        (PrintError.requireDepth m value >>= fun _ => .ok (value.text none)) := rfl
    rw [hencode, bind_eq_ok_iff, htext, PrintError.requireDepth_eq_ok_iff]
    exact and_congr_left fun _ => ⟨fun hd => ⟨hd, nofun, nofun⟩, fun hf => hf.depth⟩
  | some n =>
    have hencode : value.encode m (some n) = (PrintError.requireSpaces m 1 n >>= fun _ =>
        PrintError.requireDepth m value >>= fun _ =>
        PrintError.requireSpaces m n.toNat value.breakLevel >>= fun _ =>
        .ok (value.text (some n))) := rfl
    rw [hencode, bind_eq_ok_iff, bind_eq_ok_iff, bind_eq_ok_iff, htext,
      PrintError.requireDepth_eq_ok_iff, PrintError.requireSpaces_eq_ok_iff,
      PrintError.requireSpaces_eq_ok_iff, ← and_assoc, ← and_assoc]
    refine and_congr_left fun _ => ⟨fun ⟨⟨hlevel, hdepth⟩, hbreak⟩ => ?_, fun hf => ?_⟩
    · refine ⟨hdepth, ?_, ?_⟩
      · rintro _ ⟨⟩
        exact ⟨hlevel.1, by omega⟩
      · rintro _ ⟨⟩
        simpa using hbreak
    · obtain ⟨hindex, hroom⟩ := hf.level n rfl
      refine ⟨⟨⟨hindex, ?_, by omega⟩, hf.depth⟩, by simpa using hf.innermost n rfl⟩
      unfold IsIndex at hindex ⊢
      omega

end Fits

namespace Statement

theorem optionalText_injective : Function.Injective optionalText := by
  rintro (_ | s) (_ | t) h
  · rfl
  · cases h
  · cases h
  · rw [Json.str.inj h]

mutual
theorem toJson_inj (a b : Statement) (h : a.toJson = b.toJson) : a = b := by
  match a, b with
  | node k c n xs, node k' c' n' ys =>
    simp only [toJson, Json.obj.injEq, List.cons.injEq, Prod.mk.injEq, Json.str.injEq,
      Json.arr.injEq, true_and, and_true] at h
    obtain ⟨hkind, hcondition, hname, hchildren⟩ := h
    have hcc := Option.map_injective Condition.token_injective (optionalText_injective hcondition)
    rw [Kind.label_injective hkind, hcc, optionalText_injective hname,
      toJsonAll_inj xs ys hchildren]

theorem toJsonAll_inj (xs ys : List Statement) (h : toJsonAll xs = toJsonAll ys) : xs = ys := by
  match xs, ys with
  | [], [] => rfl
  | [], _ :: _ => cases h
  | _ :: _, [] => cases h
  | x :: xs, y :: ys =>
    obtain ⟨hhead, htail⟩ := List.cons.inj h
    rw [toJson_inj x y hhead, toJsonAll_inj xs ys htail]
end

/-- Trees are equal if and only if their objects are, if and only if the JSON texts of these are.
The output is the text of the object emitted last where there is room for it, and an error
otherwise. -/
theorem json_faithful (indent : Option Int) (a b : Statement) :
    (a = b ↔ a.toJson = b.toJson) ∧
      (a.toJson = b.toJson ↔ a.toJson.text indent = b.toJson.text indent) ∧
      ∀ m j t, Backend.output m (.json indent j) = .ok t ↔ j.Fits m indent ∧ t = j.text indent :=
  ⟨⟨congrArg toJson, toJson_inj a b⟩, ⟨congrArg (Json.text indent), Json.text_inj⟩,
    fun _ _ => Json.encode_eq_ok_iff indent⟩

end Statement

end BlockLang
