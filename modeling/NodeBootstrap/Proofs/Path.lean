import NodeBootstrap.Path.Slash
import NodeBootstrap.Proofs.Text.Blank

/-!
# Names on a path

A name that is joined to a directory is the last name of the path, and the names in front of it are
those of the directory, however many slashes the directory ends in. `Path.reached` is the place that
the names of a path lead to if all of them can be followed.
-/

set_option autoImplicit false

namespace NodeBootstrap

theorem Text.join_singleton (separator part : Text) : Text.join separator [part] = part :=
  List.append_nil part

/-- The separator stands between the first part and the next. -/
theorem Text.join_cons_cons (separator first next : Text) (parts : List Text) :
    Text.join separator (first :: next :: parts) =
      first ++ (separator ++ Text.join separator (next :: parts)) := by
  simp only [Text.join, List.intercalate, List.intersperse_cons_cons, List.flatten_cons]

/-- A joined text is its first part and the others with the separator in front of each. -/
theorem Text.join_cons (separator first : Text) (parts : List Text) :
    Text.join separator (first :: parts) =
      first ++ parts.flatMap fun part => separator ++ part := by
  induction parts generalizing first with
  | nil => rw [Text.join_singleton, List.flatMap_nil, List.append_nil]
  | cons part parts ih => rw [Text.join_cons_cons, ih, List.flatMap_cons, List.append_assoc]

/-- Parts that are joined before the others are joined with them. -/
theorem Text.join_append_join (separator first part : Text) (front parts : List Text) :
    Text.join separator (first :: (front ++ [Text.join separator (part :: parts)])) =
      Text.join separator (first :: (front ++ part :: parts)) := by
  simp only [Text.join_cons, List.flatMap_append, List.flatMap_cons, List.flatMap_nil,
    List.append_nil, List.append_assoc]

/-- What is in a part is in the joined text. -/
theorem Text.mem_join (separator : Text) {parts : List Text} {part : Text} {c : CodePoint}
    (hpart : part ∈ parts) (hc : c ∈ part) : c ∈ Text.join separator parts := by
  cases parts with
  | nil => cases hpart
  | cons first parts =>
    rw [Text.join_cons, List.mem_append]
    obtain rfl | hpart := List.mem_cons.mp hpart
    · exact .inl hc
    · exact .inr (List.mem_flatMap.mpr ⟨part, hpart, List.mem_append_right separator hc⟩)

/-- What is in a joined text is in a part or between two. -/
theorem Text.exists_of_mem_join {separator : Text} {parts : List Text} {c : CodePoint}
    (h : c ∈ Text.join separator parts) : c ∈ separator ∨ ∃ part ∈ parts, c ∈ part := by
  obtain ⟨found, hfound, hc⟩ := List.mem_flatten.mp h
  clear h
  induction parts with
  | nil => cases hfound
  | cons part parts ih =>
    cases parts with
    | nil =>
      obtain rfl := List.mem_singleton.mp hfound
      exact .inr ⟨_, List.mem_cons_self, hc⟩
    | cons next parts =>
      rw [List.intersperse_cons_cons, List.mem_cons, List.mem_cons] at hfound
      rcases hfound with rfl | rfl | hfound
      · exact .inr ⟨_, List.mem_cons_self, hc⟩
      · exact .inl hc
      · obtain hc | ⟨part, hpart, hc⟩ := ih hfound
        · exact .inl hc
        · exact .inr ⟨part, List.mem_cons_of_mem _ hpart, hc⟩

namespace Path

/-- A name that stands for something in a directory. -/
structure IsName (name : Text) : Prop where
  nonempty : name ≠ []
  slash : slash ∉ name
  dot : name ≠ text "."
  dots : name ≠ text ".."

instance (name : Text) : Decidable (IsName name) :=
  decidable_of_iff (name ≠ [] ∧ slash ∉ name ∧ name ≠ text "." ∧ name ≠ text "..")
    ⟨fun ⟨h₁, h₂, h₃, h₄⟩ => ⟨h₁, h₂, h₃, h₄⟩, fun ⟨h₁, h₂, h₃, h₄⟩ => ⟨h₁, h₂, h₃, h₄⟩⟩

/-- A path that is looked for below the working directory. -/
structure Relative (path : Text) : Prop where
  nonempty : path ≠ []
  head : isAbsolute path = false

/-- Where a name leads from a place. -/
def advance (here : List Text) (name : Text) : List Text :=
  if name = text "." then here
  else if name = text ".." then here.dropLast
  else here ++ [name]

/-- The place that a path leads to. -/
def reached (path : Text) : List Text := (names path).foldl advance []

variable {directory name path : Text}

/-! ## The names of a path -/

theorem splitOn_append (front behind : Text) :
    Text.splitOn slash (front ++ slash :: behind) =
      Text.splitOn slash front ++ Text.splitOn slash behind := by
  induction front with
  | nil => exact if_pos rfl
  | cons c front ih =>
    rw [List.cons_append, Text.splitOn, Text.splitOn]
    by_cases hc : c = slash
    · rw [if_pos hc, if_pos hc, ih, List.cons_append]
    · rw [if_neg hc, if_neg hc, ih]
      cases h : Text.splitOn slash front with
      | nil =>
        exfalso
        cases front with
        | nil => exact nomatch h
        | cons d front =>
          rw [Text.splitOn] at h
          split at h
          next => exact nomatch h
          next => split at h <;> exact nomatch h
      | cons part parts => rfl

theorem splitOn_of_not_mem (h : slash ∉ name) : Text.splitOn slash name = [name] := by
  induction name with
  | nil => rfl
  | cons c name ih =>
    obtain ⟨hc, hname⟩ := not_or.mp (mt List.mem_cons.mpr h)
    rw [Text.splitOn, if_neg (Ne.symm hc), ih hname]

theorem names_nil : names [] = [] := rfl

/-- A slash is between names, whatever stands around it. -/
theorem names_append (front behind : Text) :
    names (front ++ slash :: behind) = names front ++ names behind := by
  rw [names, splitOn_append, List.filter_append, names, names]

theorem names_of_isName (h : IsName name) : names name = [name] := by
  rw [names, splitOn_of_not_mem h.slash, List.filter_cons_of_pos]
  · rfl
  · cases name with
    | nil => exact absurd rfl h.nonempty
    | cons c name => rfl

/-- Slashes at the end do not count. -/
theorem names_dropSlashes (path : Text) :
    names (Text.dropRightWhile (· = slash) path) = names path := by
  have hslashes : ∀ (s t : Text), (∀ c ∈ s, c = slash) → names (t ++ s) = names t := by
    intro s
    induction s with
    | nil => intro t _; rw [List.append_nil]
    | cons c s ih =>
      intro t hs
      obtain ⟨rfl, hrest⟩ := List.forall_mem_cons.mp hs
      have hnone := ih [] hrest
      rw [List.nil_append, names_nil] at hnone
      rw [names_append, hnone, List.append_nil]
  have hwhole := Text.dropRightWhile_append_takeRightWhile (· = slash) path
  have htail : ∀ c ∈ Text.takeRightWhile (· = slash) path, c = slash := fun c hc =>
    of_decide_eq_true (Text.of_mem_takeRightWhile hc)
  rw [← hslashes _ (Text.dropRightWhile (· = slash) path) htail, hwhole]

theorem slash_not_mem_of_mem_splitOn {part : Text} (h : part ∈ Text.splitOn slash path) :
    slash ∉ part := by
  induction path generalizing part with
  | nil =>
    rw [List.mem_singleton.mp h]
    exact List.not_mem_nil
  | cons c path ih =>
    rw [Text.splitOn] at h
    split at h
    next =>
      rcases List.mem_cons.mp h with rfl | h
      · exact List.not_mem_nil
      · exact ih h
    next hc =>
      split at h
      next =>
        rw [List.mem_singleton.mp h]
        exact fun hmem => hc (List.mem_singleton.mp hmem).symm
      next first rest heq =>
        rw [heq] at ih
        rcases List.mem_cons.mp h with rfl | h
        · exact fun hmem => (List.mem_cons.mp hmem).elim (fun heq => hc heq.symm)
            (ih List.mem_cons_self)
        · exact ih (List.mem_cons_of_mem _ h)

/-- Names lead to places that are made of names. -/
theorem isName_of_mem_foldl {name : Text} {here parts : List Text}
    (hhere : ∀ name ∈ here, IsName name) (hparts : ∀ part ∈ parts, part ≠ [] ∧ slash ∉ part)
    (h : name ∈ parts.foldl advance here) : IsName name := by
  induction parts generalizing here with
  | nil => exact hhere name h
  | cons part parts ih =>
    obtain ⟨hpart, hparts⟩ := List.forall_mem_cons.mp hparts
    refine ih (fun name hname => ?_) hparts h
    rw [advance] at hname
    split at hname
    next => exact hhere name hname
    split at hname
    next => exact hhere name (List.dropLast_subset here hname)
    next hdot hdots =>
      rcases List.mem_append.mp hname with hname | hname
      · exact hhere name hname
      · rw [List.mem_singleton.mp hname]
        exact ⟨hpart.1, hpart.2, hdot, hdots⟩

theorem isName_of_mem_reached {name : Text} (h : name ∈ reached path) : IsName name := by
  refine isName_of_mem_foldl (List.forall_mem_nil _) (fun part hpart => ?_) h
  obtain ⟨hpart, hne⟩ := List.mem_filter.mp hpart
  refine ⟨?_, slash_not_mem_of_mem_splitOn hpart⟩
  rintro rfl
  exact Bool.false_ne_true hne

/-! ## Joined paths -/

/-- A relative path behind a directory: by itself, or behind a slash. -/
theorem join_cases (directory : Text) (hpath : isAbsolute path = false) :
    (directory = [] ∧ join directory path = path) ∨
      ∃ front, front <+: directory ∧ names front = names directory ∧
        Text.dropRightWhile (· = slash) front = Text.dropRightWhile (· = slash) directory ∧
          join directory path = front ++ slash :: path := by
  rw [join, if_neg (Bool.eq_false_iff.mp hpath)]
  split
  next hdirectory =>
    rcases List.eq_nil_or_concat directory with rfl | ⟨front, c, rfl⟩
    · exact .inl ⟨rfl, rfl⟩
    · rw [List.concat_eq_append] at hdirectory ⊢
      have hlast : c = slash := by
        simpa [endsInSlash] using hdirectory
      rw [hlast, List.append_assoc]
      refine .inr ⟨front, List.prefix_append _ _, ?_, ?_, rfl⟩
      · rw [names_append, names_nil, List.append_nil]
      · rw [Text.dropRightWhile_append]
        intro d hd
        rw [List.mem_singleton.mp hd]
        exact decide_eq_true rfl
  next =>
    rw [List.append_assoc]
    exact .inr ⟨directory, List.prefix_refl _, rfl, rfl, rfl⟩

theorem mem_join {c : CodePoint} (h : c ∈ join directory path) :
    c ∈ directory ∨ c = slash ∨ c ∈ path := by
  rw [join] at h
  split at h
  next => exact .inr (.inr h)
  next =>
    split at h
    next => exact (List.mem_append.mp h).imp_right .inr
    next =>
      rw [List.append_assoc] at h
      exact (List.mem_append.mp h).imp_right List.mem_cons.mp

theorem isAbsolute_of_isName (h : IsName name) : isAbsolute name = false := by
  cases name with
  | nil => rfl
  | cons c name =>
    refine decide_eq_false fun hc => h.slash ?_
    rw [Option.some.inj hc]
    exact List.mem_cons_self ..

/-- The names of a path that a name is joined to, and that name. -/
theorem names_join (directory : Text) (h : IsName name) :
    names (join directory name) = names directory ++ [name] := by
  rcases join_cases directory (isAbsolute_of_isName h) with
    ⟨rfl, hjoin⟩ | ⟨front, -, hnames, -, hjoin⟩
  · rw [hjoin, names_of_isName h, names_nil, List.nil_append]
  · rw [hjoin, names_append, names_of_isName h, hnames]

theorem advance_isName (here : List Text) (h : IsName name) :
    advance here name = here ++ [name] := by
  rw [advance, if_neg h.dot, if_neg h.dots]

/-- A joined name leads from where the directory leads to what it names there. -/
theorem reached_join (directory : Text) (h : IsName name) :
    reached (join directory name) = reached directory ++ [name] := by
  rw [reached, names_join directory h, List.foldl_append, List.foldl_cons, List.foldl_nil,
    advance_isName _ h, reached]

/-- The last name of a path that a name is joined to. -/
theorem baseName_join (directory : Text) (h : IsName name) :
    baseName (join directory name) = name := by
  have hname : ∀ c ∈ name, decide (c ≠ slash) = true := fun c hc =>
    decide_eq_true fun heq => h.slash (heq ▸ hc)
  rcases join_cases directory (isAbsolute_of_isName h) with ⟨-, hjoin⟩ | ⟨front, -, -, -, hjoin⟩
  · rw [hjoin, ← List.nil_append name]
    exact Text.takeRightWhile_append nofun hname
  · rw [hjoin, List.append_cons]
    refine Text.takeRightWhile_append (fun c hc => ?_) hname
    rw [List.getLast?_concat] at hc
    exact decide_eq_false fun hne => hne (Option.some.inj hc).symm

/-- A relative path cut off somewhere behind its start is one. -/
theorem Relative.front {front : Text} (h : Relative path) (hfront : front <+: path)
    (hne : front ≠ []) : Relative front := by
  refine ⟨hne, ?_⟩
  obtain ⟨rest, rfl⟩ := hfront
  cases front with
  | nil => exact absurd rfl hne
  | cons c front => exact h.head

/-- Not all of a relative path is slashes. -/
theorem Relative.dropSlashes_ne_nil (h : Relative path) :
    Text.dropRightWhile (· = slash) path ≠ [] := by
  intro hnil
  have hwhole := Text.dropRightWhile_append_takeRightWhile (· = slash) path
  rw [hnil, List.nil_append] at hwhole
  cases path with
  | nil => exact h.nonempty rfl
  | cons c path =>
    have hmem : c ∈ Text.takeRightWhile (· = slash) (c :: path) :=
      hwhole.symm ▸ List.mem_cons_self ..
    have hc : c = slash := of_decide_eq_true (Text.of_mem_takeRightWhile hmem)
    have hhead : isAbsolute (c :: path) = true := decide_eq_true (congrArg some hc)
    exact Bool.false_ne_true (h.head.symm.trans hhead)

theorem Relative.dropSlashes (h : Relative path) :
    Relative (Text.dropRightWhile (· = slash) path) :=
  h.front (Text.dropRightWhile_front _ path) h.dropSlashes_ne_nil

theorem Relative.join (hdirectory : Relative directory) (h : IsName name) :
    Relative (join directory name) := by
  rcases join_cases directory (isAbsolute_of_isName h) with
    ⟨hnil, -⟩ | ⟨front, hfront, -, hslashes, hjoin⟩
  · exact absurd hnil hdirectory.nonempty
  · have hne : front ≠ [] := by
      rintro rfl
      exact hdirectory.dropSlashes_ne_nil hslashes.symm
    have hrelative := hdirectory.front hfront hne
    rw [hjoin]
    refine ⟨List.append_ne_nil_of_left_ne_nil hne _, ?_⟩
    cases front with
    | nil => exact absurd rfl hne
    | cons c front => exact hrelative.head

theorem endsInSlash_join (directory : Text) (h : IsName name) :
    endsInSlash (Path.join directory name) = false := by
  have hlast : ∀ front : Text, (front ++ name).getLast? ≠ some slash := by
    intro front hlast
    rw [List.getLast?_append, List.getLast?_eq_some_getLast h.nonempty, Option.some_or] at hlast
    exact h.slash (Option.some.inj hlast ▸ List.getLast_mem h.nonempty)
  refine decide_eq_false ?_
  rcases join_cases directory (isAbsolute_of_isName h) with ⟨-, hjoin⟩ | ⟨front, -, -, -, hjoin⟩
  · rw [hjoin]
    exact hlast []
  · rw [hjoin, List.append_cons]
    exact hlast _

/-- A path that does not end in a slash ends in its last name. -/
theorem names_baseName (h : Relative path) (hslash : endsInSlash path = false) :
    baseName path ≠ [] ∧ slash ∉ baseName path ∧
      names path = names (Text.dropRightWhile (· ≠ slash) path) ++ [baseName path] := by
  have hwhole := Text.dropRightWhile_append_takeRightWhile (· ≠ slash) path
  have hnot : slash ∉ baseName path := fun hmem =>
    of_decide_eq_true (Text.of_mem_takeRightWhile hmem) rfl
  have hfront : ∀ c, (Text.dropRightWhile (· ≠ slash) path).getLast? = some c → c = slash :=
    fun c hc => Decidable.of_not_not (of_decide_eq_false (Text.of_getLast?_dropRightWhile hc))
  have hne : baseName path ≠ [] := by
    intro hnil
    have hpath : Text.dropRightWhile (· ≠ slash) path = path := by
      rw [← List.append_nil (Text.dropRightWhile _ path), ← hnil]
      exact hwhole
    rw [hpath] at hfront
    have hlast := hfront _ (List.getLast?_eq_some_getLast h.nonempty)
    have htrue : endsInSlash path = true :=
      decide_eq_true ((List.getLast?_eq_some_getLast h.nonempty).trans (congrArg some hlast))
    exact Bool.false_ne_true (hslash.symm.trans htrue)
  have hsingle : names (baseName path) = [baseName path] := by
    rw [names, splitOn_of_not_mem hnot, List.filter_cons_of_pos]
    · rfl
    · cases hbase : baseName path with
      | nil => exact absurd hbase hne
      | cons c name => rfl
  refine ⟨hne, hnot, ?_⟩
  rcases List.eq_nil_or_concat (Text.dropRightWhile (· ≠ slash) path) with hnil | ⟨front, c, hc⟩
  · have hpath : path = baseName path := by
      rw [hnil, List.nil_append] at hwhole
      exact hwhole.symm
    rw [hnil, names_nil, List.nil_append, ← hsingle, ← hpath]
  · rw [List.concat_eq_append] at hc
    have hlast : c = slash := hfront c (by rw [hc, List.getLast?_concat])
    rw [hlast] at hc
    have hpath : path = front ++ slash :: baseName path := by
      rw [hc, List.append_assoc] at hwhole
      exact hwhole.symm
    rw [hc, names_append, names_nil, List.append_nil, ← hsingle, ← names_append, ← hpath]

/-- A joined path is taken apart into the directory without slashes at its end and the name. -/
theorem split_join (hdirectory : Relative directory) (h : IsName name) :
    split (Path.join directory name) = (Text.dropRightWhile (· = slash) directory, name) := by
  rcases join_cases directory (isAbsolute_of_isName h) with
    ⟨hnil, -⟩ | ⟨front, -, -, hslashes, hjoin⟩
  · exact absurd hnil hdirectory.nonempty
  · have hhead : Text.dropRightWhile (· ≠ slash) (front ++ slash :: name) = front ++ [slash] := by
      rw [List.append_cons, Text.dropRightWhile_append]
      · apply Text.dropRightWhile_eq_self
        intro c hc
        rw [List.getLast?_concat] at hc
        exact decide_eq_false fun hne => hne (Option.some.inj hc).symm
      · intro c hc
        exact decide_eq_true fun heq => h.slash (heq ▸ hc)
    have hshorter : Text.dropRightWhile (· = slash) (front ++ [slash]) =
        Text.dropRightWhile (· = slash) directory := by
      rw [Text.dropRightWhile_append, hslashes]
      intro c hc
      rw [List.mem_singleton.mp hc]
      exact decide_eq_true rfl
    rw [split, baseName_join directory h, hjoin, hhead, hshorter, if_neg]
    intro hnil
    exact hdirectory.dropSlashes_ne_nil (List.isEmpty_iff.mp hnil)

/-! ## Normal paths -/

theorem mem_of_mem_splitOn {part : Text} {c : CodePoint} (h : part ∈ Text.splitOn slash path)
    (hc : c ∈ part) : c ∈ path := by
  induction path generalizing part with
  | nil =>
    rw [List.mem_singleton.mp h] at hc
    exact hc
  | cons d path ih =>
    rw [Text.splitOn] at h
    split at h
    next =>
      rcases List.mem_cons.mp h with rfl | h
      · cases hc
      · exact List.mem_cons_of_mem _ (ih h hc)
    next =>
      split at h
      next =>
        rw [List.mem_singleton.mp h] at hc
        exact List.mem_singleton.mp hc ▸ List.mem_cons_self
      next first rest heq =>
        rw [heq] at ih
        rcases List.mem_cons.mp h with rfl | h
        · rcases List.mem_cons.mp hc with rfl | hc
          · exact List.mem_cons_self
          · exact List.mem_cons_of_mem _ (ih List.mem_cons_self hc)
        · exact List.mem_cons_of_mem _ (ih (List.mem_cons_of_mem _ h) hc)

/-- The names of a path without dots are names of the path. -/
theorem mem_names_of_mem_normalNames {name : Text} (h : name ∈ normalNames path) :
    name ∈ names path := by
  have hfold : ∀ (parts back : List Text), name ∈ parts.foldl (fun back name =>
      if name = text "." then back
      else if name = text ".." ∧ back ≠ [] ∧ back.head? ≠ some (text "..") then back.drop 1
      else name :: back) back → name ∈ back ∨ name ∈ parts := by
    intro parts
    induction parts with
    | nil => exact fun _ h => .inl h
    | cons part parts ih =>
      intro back h
      rcases ih _ h with h | h
      · dsimp only at h
        split at h
        next => exact .inl h
        split at h
        next => exact .inl (List.mem_of_mem_drop h)
        next => exact (List.mem_cons.mp h).elim (fun h => .inr (h ▸ List.mem_cons_self)) .inl
      · exact .inr (List.mem_cons_of_mem _ h)
  exact (hfold _ [] (List.mem_reverse.mp h)).resolve_left List.not_mem_nil

theorem mem_normal {c : CodePoint} (h : c ∈ normal path) : c = slash ∨ c ∈ path := by
  rcases Text.exists_of_mem_join h with h | ⟨part, hpart, hc⟩
  · exact .inl (List.mem_singleton.mp h)
  · exact .inr (mem_of_mem_splitOn (List.mem_filter.mp (mem_names_of_mem_normalNames hpart)).1 hc)

end Path

end NodeBootstrap
