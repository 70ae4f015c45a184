import BlockLang.Directory
import Mathlib.Data.List.Basic

/-! Writing a file. What is written at a path is read there, and the path can be written again:
putting a file where no folder stands leaves every folder on the way to it in place. All that lies
towards the end of a way that was followed is folders, so nothing is changed but the file. -/

namespace BlockLang.Directory

variable {d d' : Directory} {way v : List String} {e : Entry} {path : String}
  {names : List String} {bytes : List UInt8}

/-! ### Entries -/

/-- Replacing the entries at the end of a way. -/
theorem lookup_replace (entries : List (List String × Entry)) (way v : List String) (e : Entry) :
    (entries.map fun old => if old.1 = way then (way, e) else old).lookup v =
      if v = way then (entries.lookup way).map fun _ => e else entries.lookup v := by
  induction entries with
  | nil => simp
  | cons old entries ih =>
    obtain ⟨w, o⟩ := old
    by_cases hw : w = way
    · subst hw
      by_cases hv : v = w
      · simp [hv]
      · have hbeq : (v == w) = false := by simpa using hv
        rw [List.map_cons, if_pos rfl, List.lookup_cons, hbeq, ih, if_neg hv, if_neg hv,
          List.lookup_cons, hbeq]
    · rw [List.map_cons, if_neg hw, List.lookup_cons, ih, List.lookup_cons, List.lookup_cons]
      have hbeq : (way == w) = false := by simpa using Ne.symm hw
      by_cases hv : v = way
      · simp [hv, hbeq]
      · simp only [if_neg hv]

theorem lookup_put (d : Directory) (way v : List String) (e : Entry) :
    (d.put way e).entries.lookup v = if v = way then some e else d.entries.lookup v := by
  unfold put
  split
  · next h =>
    obtain ⟨old, hold, hway⟩ := List.any_eq_true.1 h
    have hsome : d.entries.lookup way ≠ none := fun hnone => by
      have hne := bne_iff_ne.1 (List.lookup_eq_none_iff.1 hnone old hold)
      exact hne (beq_iff_eq.1 hway).symm
    obtain ⟨o, ho⟩ := Option.ne_none_iff_exists'.1 hsome
    rw [lookup_replace, ho, Option.map_some]
  · next h =>
    rw [List.lookup_append, List.lookup_cons]
    by_cases hv : v = way
    · subst hv
      have hnone : d.entries.lookup v = none := by
        refine List.lookup_eq_none_iff.2 fun old hold => bne_iff_ne.2 fun heq => h ?_
        exact List.any_eq_true.2 ⟨old, hold, by simp [heq]⟩
      simp [hnone]
    · have hbeq : (v == way) = false := by simpa using hv
      simp [hv, hbeq]

/-- All ways to an entry still lead to one. -/
theorem exists_way_put {old : List String × Entry} (h : old ∈ d.entries) (way : List String)
    (e : Entry) : ∃ new ∈ (d.put way e).entries, new.1 = old.1 := by
  unfold put
  split
  · refine ⟨_, List.mem_map.2 ⟨old, h, rfl⟩, ?_⟩
    split
    · next hway => exact hway.symm
    · rfl
  · exact ⟨old, List.mem_append_left _ h, rfl⟩

theorem entry?_eq (h : ¬ (isUpward way ∨ way = [root])) (d : Directory) : d.entry? way =
    (d.entries.lookup way).or
      (if d.entries.any fun e => way.isPrefixOf e.1 then some .folder else none) := by
  unfold entry?
  rw [if_neg h]
  cases d.entries.lookup way <;> rfl

theorem entry?_put_self (h : d.entry? way ≠ some .folder) (e : Entry) :
    entry? (d.put way e) way = some e := by
  have hway : ¬ (isUpward way ∨ way = [root]) := fun hway => h (if_pos hway)
  rw [entry?_eq hway, lookup_put, if_pos rfl, Option.some_or]

/-- A folder stays one, unless something else is put there. -/
theorem entry?_put_of_ne (hv : v ≠ way) (h : d.entry? v = some .folder) (e : Entry) :
    entry? (d.put way e) v = some .folder := by
  by_cases hup : isUpward v ∨ v = [root]
  · exact if_pos hup
  · rw [entry?_eq hup] at h ⊢
    rw [lookup_put, if_neg hv]
    cases hlook : d.entries.lookup v with
    | some o => simpa [hlook] using h
    | none =>
      have hany : (d.entries.any fun e => v.isPrefixOf e.1) = true := by
        by_contra hany
        simp [hlook, hany] at h
      obtain ⟨old, hold, hprefix⟩ := List.any_eq_true.1 hany
      obtain ⟨new, hnew, heq⟩ := exists_way_put hold way e
      have hany' : ((d.put way e).entries.any fun e => v.isPrefixOf e.1) = true :=
        List.any_eq_true.2 ⟨new, hnew, by rw [heq]; exact hprefix⟩
      rw [Option.none_or, if_pos hany']

/-- Whether a way leads on to an entry is changed by no more than the way itself. -/
theorem any_put_of_not_prefix (hv : ¬ v <+: way) (d : Directory) (e : Entry) :
    ((d.put way e).entries.any fun old => v.isPrefixOf old.1) =
      d.entries.any fun old => v.isPrefixOf old.1 := by
  unfold put
  split
  · rw [List.any_map]
    congr 1
    funext old
    by_cases hold : old.1 = way
    · simp [hold]
    · simp [hold]
  · have hfalse : v.isPrefixOf way = false := by
      rw [Bool.eq_false_iff, ne_eq, List.isPrefixOf_iff_prefix]
      exact hv
    simp [hfalse]

/-! ### Paths -/

/-- Each name is followed in a folder. -/
theorem follow_cons_eq_ok_iff {name : String} {w : List String} :
    d.follow way (name :: names) = .ok w ↔ d.entry? way = some .folder ∧
      ¬ name.utf8ByteSize > maxNameBytes ∧ d.follow (below way name) names = .ok w := by
  rw [follow]
  split
  · next h => simp [h]
  · next h => simp [h]
  · next h =>
    rw [h]
    split
    · next hlong => simp [hlong]
    · next hlong => simp [hlong]

/-- A file that is put where no folder stands is not in the way of what leads there. -/
theorem follow_put (h : d.entry? way ≠ some .folder) (hf : d.follow v names = .ok way)
    (e : Entry) : (d.put way e).follow v names = .ok way := by
  induction names generalizing v with
  | nil => exact hf
  | cons name names ih =>
    obtain ⟨hv, hname, hrest⟩ := follow_cons_eq_ok_iff.1 hf
    have hne : v ≠ way := fun heq => h (heq ▸ hv)
    exact follow_cons_eq_ok_iff.2 ⟨entry?_put_of_ne hne hv e, hname, ih hrest⟩

/-- A single dot at the end leads to a folder. -/
theorem entry?_of_follow_dot (h : d.follow v (names ++ ["."]) = .ok way) :
    d.entry? way = some .folder := by
  induction names generalizing v with
  | nil =>
    obtain ⟨hv, -, hrest⟩ := follow_cons_eq_ok_iff.1 h
    obtain rfl : v = way := Except.ok.inj hrest
    exact hv
  | cons name names ih => exact ih (follow_cons_eq_ok_iff.1 h).2.2

/-- A path without null characters that is not too long leads where its names lead. -/
theorem resolve_eq_ok_iff : d.resolve path names = .ok way ↔
    ¬ path.toList.contains '\x00' ∧ ¬ path.utf8ByteSize > maxPathBytes ∧
      d.follow [] names = .ok way := by
  unfold resolve
  split
  · next hnull => exact ⟨nofun, fun h => absurd hnull h.1⟩
  · next hnull =>
    split
    · next hlong => exact ⟨nofun, fun h => absurd hlong h.2.1⟩
    · next hlong => exact ⟨fun h => ⟨hnull, hlong, h⟩, fun h => h.2.2⟩

theorem resolve_put (h : d.entry? way ≠ some .folder) (hr : d.resolve path names = .ok way)
    (e : Entry) : (d.put way e).resolve path names = .ok way := by
  obtain ⟨hnull, hlong, hf⟩ := resolve_eq_ok_iff.1 hr
  exact resolve_eq_ok_iff.2 ⟨hnull, hlong, follow_put h hf e⟩

/-! ### Folders on the way -/

/-- Folders stand at all ways that lead towards the end of a way. -/
def IsEntered (d : Directory) (way : List String) : Prop :=
  ∀ v, v <+: way → v ≠ way → d.entry? v = some .folder

theorem isEntered_nil (d : Directory) : d.IsEntered [] := fun _ hv hne =>
  absurd (List.prefix_nil.1 hv) hne

theorem IsEntered.concat (h : d.IsEntered way) (hway : d.entry? way = some .folder)
    (name : String) : d.IsEntered (way ++ [name]) := by
  intro v hv hne
  rcases List.prefix_concat_iff.1 hv with rfl | hv
  · exact absurd rfl hne
  · by_cases heq : v = way
    · rw [heq]
      exact hway
    · exact h v hv heq

theorem IsEntered.dropLast (h : d.IsEntered way) : d.IsEntered way.dropLast := by
  intro v hv hne
  refine h v (hv.trans (List.dropLast_prefix way)) ?_
  rintro rfl
  exact hne (hv.eq_of_length_le (List.dropLast_prefix v).length_le)

theorem IsEntered.below (h : d.IsEntered way) (hway : d.entry? way = some .folder)
    (name : String) : d.IsEntered (below way name) := by
  unfold Directory.below above
  split
  · exact h
  split
  · split
    · exact h
    split
    · exact h.concat hway parent
    · exact h.dropLast
  · exact h.concat hway name

theorem isEntered_of_follow (hv : d.IsEntered v) (hf : d.follow v names = .ok way) :
    d.IsEntered way := by
  induction names generalizing v with
  | nil =>
    obtain rfl : v = way := Except.ok.inj hf
    exact hv
  | cons name names ih =>
    obtain ⟨hfolder, -, hrest⟩ := follow_cons_eq_ok_iff.1 hf
    exact ih (hv.below hfolder name) hrest

/-- Putting something at the end of a way changes nothing else, if folders lead there. -/
theorem IsEntered.entry?_put (h : d.IsEntered way) (hv : v ≠ way) (e : Entry) :
    entry? (d.put way e) v = d.entry? v := by
  by_cases hprefix : v <+: way
  · rw [h v hprefix hv]
    exact entry?_put_of_ne hv (h v hprefix hv) e
  · by_cases hup : isUpward v ∨ v = [root]
    · exact (if_pos hup).trans (if_pos hup).symm
    · rw [entry?_eq hup, entry?_eq hup, lookup_put, if_neg hv, any_put_of_not_prefix hprefix]

/-! ### Files -/

theorem write_eq_ok_iff : d.write path bytes = .ok d' ↔
    ∃ way, d.resolve path (namesToWrite path) = .ok way ∧ d.entry? way ≠ some .folder ∧
      d' = d.put way (.file bytes) := by
  unfold write
  split
  · next h => simp [h]
  · next way h =>
    split
    · next hf => simp [h, hf]
    · next hf =>
      constructor
      · intro hd
        exact ⟨way, h, hf, (Except.ok.inj hd).symm⟩
      · rintro ⟨way', hr, -, rfl⟩
        obtain rfl := Except.ok.inj (h.symm.trans hr)
        rfl

/-- A path that can be written does not end with a slash. -/
theorem endsInSlash_of_write (h : d.write path bytes = .ok d') : endsInSlash path = false := by
  obtain ⟨way, hr, hway, -⟩ := write_eq_ok_iff.1 h
  by_contra hs
  rw [Bool.not_eq_false] at hs
  rw [namesToWrite, if_pos hs] at hr
  exact hway (entry?_of_follow_dot (resolve_eq_ok_iff.1 hr).2.2)

/-- What is written at a path is read there. -/
theorem read_of_write (h : d.write path bytes = .ok d') : d'.read path = .ok bytes := by
  have hs := endsInSlash_of_write h
  obtain ⟨way, hr, hway, rfl⟩ := write_eq_ok_iff.1 h
  rw [namesToWrite, if_neg (by simp [hs])] at hr
  rw [read, resolve_put hway hr]
  simp [entry?_put_self hway, hs]

/-- Nothing else changes than what stands at a path. -/
def ChangesOnly (d d' : Directory) (path : String) : Prop :=
  ∃ way, d.resolve path (namesToWrite path) = .ok way ∧ ∀ v, v ≠ way → d'.entry? v = d.entry? v

theorem changesOnly_of_write (h : d.write path bytes = .ok d') : d.ChangesOnly d' path := by
  obtain ⟨way, hr, -, rfl⟩ := write_eq_ok_iff.1 h
  have hway := isEntered_of_follow d.isEntered_nil (resolve_eq_ok_iff.1 hr).2.2
  exact ⟨way, hr, fun v hv => hway.entry?_put hv _⟩

/-- A file can be written at a path. -/
def Writable (d : Directory) (path : String) : Prop :=
  ∃ way, d.resolve path (namesToWrite path) = .ok way ∧ d.entry? way ≠ some .folder

/-- A path that was written can be written again. -/
theorem writable_of_write (h : d.write path bytes = .ok d') : d'.Writable path := by
  obtain ⟨way, hr, hway, rfl⟩ := write_eq_ok_iff.1 h
  exact ⟨way, resolve_put hway hr _, by simp [entry?_put_self hway]⟩

theorem Writable.exists_write (h : d.Writable path) (bytes : List UInt8) :
    ∃ d', d.write path bytes = .ok d' := by
  obtain ⟨way, hr, hway⟩ := h
  exact ⟨_, write_eq_ok_iff.2 ⟨way, hr, hway, rfl⟩⟩

end BlockLang.Directory
