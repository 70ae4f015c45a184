import BlockLang.Statement.Describe
import BlockLang.Proofs.Text.Quoted

/-! Descriptions tell trees apart. A description can be read off the front of any text: the word at
its beginning ends at a parenthesis and tells the kind of the node, the kind tells what stands
between the parentheses, and the items of a list end where no comma follows. Names are quoted, so
none of their characters is taken for a delimiter. -/

namespace BlockLang

variable {cs ds r s : List Char}

/-! ### Words -/

/-- The characters that can come after a word. No word contains any of them. -/
def delimiters : List Char := ['(', ',', ')']

def HasNoDelimiter (cs : List Char) : Prop := ∀ c ∈ cs, c ∉ delimiters

instance : DecidablePred HasNoDelimiter := List.decidableBAll fun c : Char => c ∉ delimiters

def BeginsWithDelimiter (cs : List Char) : Prop := ∃ c ∈ delimiters, ∃ t, cs = c :: t

/-- A word can be read off the front of a text, up to the first delimiter. -/
theorem word_append_inj (hcs : HasNoDelimiter cs) (hds : HasNoDelimiter ds)
    (hr : BeginsWithDelimiter r) (hs : BeginsWithDelimiter s) (h : cs ++ r = ds ++ s) :
    cs = ds ∧ r = s := by
  induction cs generalizing ds with
  | nil =>
    cases ds with
    | nil => exact ⟨rfl, h⟩
    | cons d ds =>
      obtain ⟨c, hc, t, rfl⟩ := hr
      rw [(List.cons.inj h).1] at hc
      exact absurd hc (hds d List.mem_cons_self)
  | cons c cs ih =>
    cases ds with
    | nil =>
      obtain ⟨d, hd, t, rfl⟩ := hs
      rw [← (List.cons.inj h).1] at hd
      exact absurd hd (hcs c List.mem_cons_self)
    | cons d ds =>
      obtain ⟨rfl, htail⟩ := List.cons.inj h
      obtain ⟨rfl, hrest⟩ := ih (List.forall_mem_of_forall_mem_cons hcs)
        (List.forall_mem_of_forall_mem_cons hds) htail
      exact ⟨rfl, hrest⟩

theorem Condition.name_injective : Function.Injective Condition.name := fun c d h => by
  have hname : ∀ m ∈ Condition.all, ∀ n ∈ Condition.all, m.name = n.name → m = n := by decide
  exact hname c (by cases c <;> decide) d (by cases d <;> decide) h

/-- The name of a condition can be read off the front of a text. -/
theorem Condition.name_append_inj {c d : Condition} (hr : BeginsWithDelimiter r)
    (hs : BeginsWithDelimiter s) (h : c.name.toList ++ r = d.name.toList ++ s) :
    c = d ∧ r = s := by
  have hword : ∀ c : Condition, HasNoDelimiter c.name.toList := fun c => by cases c <;> decide
  obtain ⟨hcd, hrest⟩ := word_append_inj (hword c) (hword d) hr hs h
  exact ⟨Condition.name_injective (String.toList_inj.1 hcd), hrest⟩

namespace Statement

theorem heading_injective : Function.Injective heading := fun k l h => by
  cases k <;> cases l <;> first | rfl | exact absurd h (by decide)

/-- The kind of a node can be read off the front of a text. -/
theorem heading_append_inj {k l : Kind} (h : heading k ++ '(' :: r = heading l ++ '(' :: s) :
    k = l ∧ r = s := by
  have hword : ∀ k : Kind, HasNoDelimiter (heading k) := fun k => by cases k <;> decide
  obtain ⟨hkl, hrest⟩ := word_append_inj (hword k) (hword l) ⟨'(', by decide, r, rfl⟩
    ⟨'(', by decide, s, rfl⟩ h
  exact ⟨heading_injective hkl, (List.cons.inj hrest).2⟩

/-! ### Lists -/

/-- A part that comes after another one. -/
def following (part : List Char) : List Char := ',' :: ' ' :: part

theorem commaSeparated_cons (part : List Char) (parts : List (List Char)) :
    commaSeparated (part :: parts) = part ++ parts.flatMap following := by
  induction parts generalizing part with
  | nil => simp [commaSeparated]
  | cons next parts ih =>
    have hnext : commaSeparated (part :: next :: parts) =
        part ++ following (commaSeparated (next :: parts)) := by
      simp [commaSeparated, following]
    rw [hnext, ih, List.flatMap_cons]
    rfl

/-- Parts in a row and a mark after them, if no part begins with the mark, determine what would
stand after an earlier part. -/
theorem flatMap_following_of_commaSeparated {mark : Char} {ps qs : List (List Char)}
    (hps : ∀ p ∈ ps, ∀ r s, p ++ r ≠ mark :: s) (hqs : ∀ q ∈ qs, ∀ r s, q ++ r ≠ mark :: s)
    (h : commaSeparated ps ++ mark :: r = commaSeparated qs ++ mark :: s) :
    ps.flatMap following ++ mark :: r = qs.flatMap following ++ mark :: s := by
  cases ps with
  | nil =>
    cases qs with
    | nil => exact h
    | cons q qs =>
      rw [commaSeparated_cons, List.append_assoc] at h
      exact absurd h.symm (hqs q List.mem_cons_self _ _)
  | cons p ps =>
    cases qs with
    | nil =>
      rw [commaSeparated_cons, List.append_assoc] at h
      exact absurd h (hps p List.mem_cons_self _ _)
    | cons q qs =>
      rw [commaSeparated_cons, commaSeparated_cons] at h
      exact congrArg following h

/-! ### Trees -/

/-- Trees of which a description shows everything: calls have neither condition nor children, blocks
neither condition nor name, and tests a condition and no name. The name of a call can be any text or
absent, and nodes of all kinds can be children. -/
inductive IsShown : Statement → Prop where
  | call (name : Option String) : IsShown (node .call none name [])
  | block {xs : List Statement} : (∀ x ∈ xs, IsShown x) → IsShown (node .block none none xs)
  | test {k : Kind} {c : Condition} {xs : List Statement} : k ≠ .block → k ≠ .call →
      (∀ x ∈ xs, IsShown x) → IsShown (node k (some c) none xs)

variable {a b : Statement} {k : Kind} {c : Condition} {name : Option String}
  {xs ys : List Statement}

/-- The characters of the description of a tree that has one. -/
def description (a : Statement) : List Char := a.spell.getD []

theorem spellAll_eq (h : ∀ x ∈ xs, x.spell = some x.description) :
    spellAll xs = some (xs.map description) := by
  induction xs with
  | nil => rfl
  | cons x xs ih =>
    rw [List.forall_mem_cons] at h
    simp [spellAll, h.1, ih h.2]

theorem spell_block (h : ∀ x ∈ xs, x.spell = some x.description) :
    spell (node .block none none xs) =
      some (heading .block ++ '(' :: '[' :: commaSeparated (xs.map description) ++ [']', ')']) := by
  simp [spell, spellAll_eq h]

theorem spell_test (hblock : k ≠ .block) (hcall : k ≠ .call)
    (h : ∀ x ∈ xs, x.spell = some x.description) :
    spell (node k (some c) none xs) =
      some (heading k ++ '(' :: commaSeparated (c.name.toList :: xs.map description) ++ [')']) := by
  cases k with
  | block => exact absurd rfl hblock
  | call => exact absurd rfl hcall
  | ifThen | ifElse | whileDo => simp [spell, spellAll_eq h]

theorem IsShown.spell_eq (h : IsShown a) : a.spell = some a.description := by
  induction h with
  | call name => rfl
  | block _ ih => rw [description, spell_block ih, Option.getD_some]
  | test hblock hcall _ ih => rw [description, spell_test hblock hcall ih, Option.getD_some]

theorem IsShown.describe?_eq (h : IsShown a) : a.describe? = some (.ofList a.description) := by
  rw [describe?, h.spell_eq, Option.map_some]

theorem description_call_append (name : Option String) (r : List Char) :
    description (node .call none name []) ++ r =
      heading .call ++ '(' :: ((Text.quoteOption name).toList ++ ')' :: r) := by
  simp [description, spell]

theorem description_block_append (h : ∀ x ∈ xs, IsShown x) (r : List Char) :
    description (node .block none none xs) ++ r =
      heading .block ++ '(' :: '[' :: (commaSeparated (xs.map description) ++ ']' :: ')' :: r) := by
  simp [description, spell_block fun x hx => (h x hx).spell_eq]

theorem description_test_append (hblock : k ≠ .block) (hcall : k ≠ .call) (h : ∀ x ∈ xs, IsShown x)
    (r : List Char) : description (node k (some c) none xs) ++ r =
      heading k ++ '(' :: (c.name.toList ++
        (xs.flatMap (fun x => following x.description) ++ ')' :: r)) := by
  simp [description, spell_test hblock hcall fun x hx => (h x hx).spell_eq, commaSeparated_cons,
    List.flatMap_map]

theorem IsShown.exists_description_append (h : IsShown a) (r : List Char) :
    ∃ t, a.description ++ r = heading a.kind ++ '(' :: t := by
  cases h with
  | call name => exact ⟨_, description_call_append name r⟩
  | block hxs => exact ⟨_, description_block_append hxs r⟩
  | test hblock hcall hxs => exact ⟨_, description_test_append hblock hcall hxs r⟩

theorem kind_eq_of_description_append (ha : IsShown a) (hb : IsShown b)
    (h : a.description ++ r = b.description ++ s) : a.kind = b.kind := by
  obtain ⟨t, ht⟩ := ha.exists_description_append r
  obtain ⟨u, hu⟩ := hb.exists_description_append s
  rw [ht, hu] at h
  exact (heading_append_inj h).1

/-- No description begins with the bracket that ends a list. -/
theorem append_ne_of_mem_map_description (h : ∀ x ∈ xs, IsShown x) :
    ∀ p ∈ xs.map description, ∀ r s, p ++ r ≠ ']' :: s := by
  intro p hp r s
  obtain ⟨x, hx, rfl⟩ := List.mem_map.1 hp
  obtain ⟨t, ht⟩ := (h x hx).exists_description_append r
  rw [ht]
  cases x.kind <;> exact fun heq => absurd (List.cons.inj heq).1 (by decide)

/-- Later items in a row can be read off the front of a text. -/
theorem flatMap_following_description_inj {mark : Char} (hmark : mark ≠ ',')
    (hinj : ∀ x ∈ xs, ∀ y ∈ ys, ∀ r s, x.description ++ r = y.description ++ s → x = y ∧ r = s)
    (h : xs.flatMap (fun x => following x.description) ++ mark :: r =
      ys.flatMap (fun y => following y.description) ++ mark :: s) : xs = ys ∧ r = s :=
  Text.flatMap_append_mark_inj
    (fun x hx y hy r s h => hinj x hx y hy r s (List.cons.inj (List.cons.inj h).2).2)
    (fun _ _ _ h => hmark (List.cons.inj h).1.symm) h

theorem beginsWithDelimiter_flatMap_following (xs : List Statement) (r : List Char) :
    BeginsWithDelimiter (xs.flatMap (fun x => following x.description) ++ ')' :: r) := by
  cases xs with
  | nil => exact ⟨')', by decide, r, rfl⟩
  | cons x xs => exact ⟨',', by decide, _, rfl⟩

/-- A description can be read off the front of any text. -/
theorem IsShown.description_append_inj (ha : IsShown a) (hb : IsShown b)
    (h : a.description ++ r = b.description ++ s) : a = b ∧ r = s := by
  -- The other tree and the texts behind are general: a child is followed by whatever comes later.
  induction ha generalizing b r s with
  | call name =>
    have hkind := kind_eq_of_description_append (.call name) hb h
    cases hb with
    | call name' =>
      rw [description_call_append, description_call_append] at h
      obtain ⟨rfl, hrest⟩ := Text.quoteOption_append_inj (heading_append_inj h).2
      exact ⟨rfl, (List.cons.inj hrest).2⟩
    | block _ => cases hkind
    | test _ hcall _ => exact absurd hkind.symm hcall
  | block hxs ih =>
    have hkind := kind_eq_of_description_append (.block hxs) hb h
    cases hb with
    | call _ => cases hkind
    | block hys =>
      rw [description_block_append hxs, description_block_append hys] at h
      have hinside := (List.cons.inj (heading_append_inj h).2).2
      have hitems := flatMap_following_of_commaSeparated (append_ne_of_mem_map_description hxs)
        (append_ne_of_mem_map_description hys) hinside
      rw [List.flatMap_map, List.flatMap_map] at hitems
      obtain ⟨rfl, hrest⟩ := flatMap_following_description_inj (by decide)
        (fun x hx y hy _ _ => ih x hx (hys y hy)) hitems
      exact ⟨rfl, (List.cons.inj hrest).2⟩
    | test hblock _ _ => exact absurd hkind.symm hblock
  | @test _ _ xs hblock hcall hxs ih =>
    have hkind := kind_eq_of_description_append (.test hblock hcall hxs) hb h
    cases hb with
    | call _ => exact absurd hkind hcall
    | block _ => exact absurd hkind hblock
    | @test _ _ ys hblock' hcall' hys =>
      rw [description_test_append hblock hcall hxs, description_test_append hblock' hcall' hys] at h
      obtain ⟨rfl, hinside⟩ := heading_append_inj h
      obtain ⟨rfl, hitems⟩ := Condition.name_append_inj (beginsWithDelimiter_flatMap_following xs r)
        (beginsWithDelimiter_flatMap_following ys s) hinside
      obtain ⟨rfl, hrest⟩ := flatMap_following_description_inj (by decide)
        (fun x hx y hy _ _ => ih x hx (hys y hy)) hitems
      exact ⟨rfl, hrest⟩

/-- Trees of which the descriptions show everything have descriptions, and these are equal if and
only if the trees are. -/
theorem descriptions_eq_iff (a b : Statement) (ha : IsShown a) (hb : IsShown b) :
    ∃ s t, a.describe? = some s ∧ b.describe? = some t ∧ (s = t ↔ a = b) := by
  refine ⟨.ofList a.description, .ofList b.description, ha.describe?_eq, hb.describe?_eq, ?_⟩
  constructor
  · intro h
    have hcs : a.description ++ [] = b.description ++ [] := by rw [String.ofList_injective h]
    exact (ha.description_append_inj hb hcs).1
  · rintro rfl
    rfl

/-- A name that looks like the end of one call and the beginning of another is not taken for two
calls, and an absent name not for the name spelled the same. -/
theorem descriptions_eq_iff_lookalikes :
    let quoted := ifThen .always [node .call none none [], call "a'), Call('b"]
    let plain := ifThen .always [call "None", call "a", call "b"]
    IsShown quoted ∧ IsShown plain ∧
      ∃ s t, quoted.describe? = some s ∧ plain.describe? = some t ∧ s ≠ t := by
  intro quoted plain
  have hquoted : IsShown quoted := by
    refine .test (by decide) (by decide) (List.forall_mem_singleton.2 (.block ?_))
    simp only [List.forall_mem_cons]
    exact ⟨.call _, .call _, List.forall_mem_nil _⟩
  have hplain : IsShown plain := by
    refine .test (by decide) (by decide) (List.forall_mem_singleton.2 (.block ?_))
    simp only [List.forall_mem_cons]
    exact ⟨.call _, .call _, .call _, List.forall_mem_nil _⟩
  obtain ⟨s, t, hs, ht, hst⟩ := descriptions_eq_iff quoted plain hquoted hplain
  exact ⟨hquoted, hplain, s, t, hs, ht, fun h => absurd (hst.1 h) (by decide)⟩

example : (ifThen .always [node .call none none [], call "a'), Call('b"]).describe? =
    some "If(TRUE, Block([Call(None), Call(\"a'), Call('b\")]))" := by
  decide +kernel

end Statement

end BlockLang
