import NodeBootstrap.Path.Drive
import NodeBootstrap.Proofs.Text.Blank

/-!
# Names behind directories on drives

A file name that is joined to a directory is the last name of the path, so looking for it in the
directory once more leads to the same path (`DrivePath.settled_join`). This needs a name that is not
itself read as a drive, and a directory whose drive ends before the name: a network path that is cut
off behind its host takes the name for the share.

Of any path nothing is lost when it is joined (`mem_join`), and nothing but separators is new
(`of_mem_join`).
-/

set_option autoImplicit false

namespace NodeBootstrap.DrivePath

/-- A name that stands in a directory: it has no separator, and no colon that would end a drive. -/
structure IsName (name : Text) : Prop where
  nonempty : name ≠ []
  separator : ∀ c ∈ name, isSeparator c = false
  colon : .char ':' ∉ name

/-- A path with one kind of slash. -/
def even (path : Text) : Text := path.map fun c => if c = .char '/' then backslash else c

/-- A path on the network, or on a device: two separators stand in front. -/
def IsNetwork (path : Text) : Prop := (even path).take 2 = [backslash, backslash]

instance (path : Text) : Decidable (IsNetwork path) := inferInstanceAs (Decidable (_ = _))

/-- A directory that takes names: a network path has to go on behind its host and share. -/
def TakesNames (directory : Text) : Prop :=
  IsNetwork directory → (splitDrive directory).2 ≠ []

/-- A path that stays when its last name is looked for in a directory. -/
structure Settled (directory path : Text) : Prop where
  name : baseName path ≠ []
  path : join directory (baseName path) = path

instance (directory path : Text) : Decidable (Settled directory path) :=
  decidable_of_iff (baseName path ≠ [] ∧ join directory (baseName path) = path)
    ⟨fun ⟨h₁, h₂⟩ => ⟨h₁, h₂⟩, fun ⟨h₁, h₂⟩ => ⟨h₁, h₂⟩⟩

variable {directory name path : Text}

/-! ## Drives -/

theorem even_append (path rest : Text) : even (path ++ rest) = even path ++ even rest :=
  List.map_append

theorem length_even (path : Text) : (even path).length = path.length := List.length_map ..

theorem isSeparator_of_even {c : CodePoint}
    (h : (if c = .char '/' then backslash else c) = backslash) : isSeparator c = true := by
  unfold isSeparator
  split at h
  next hc => rw [hc]; rfl
  next => rw [h]; rfl

/-- A backslash of the even path is a separator of the path. -/
theorem separator_of_even {i : Nat} (h : (even path)[i]? = some backslash) :
    ∃ c, path[i]? = some c ∧ isSeparator c = true := by
  rw [even, List.getElem?_map] at h
  obtain ⟨c, hc, heq⟩ := Option.map_eq_some_iff.mp h
  exact ⟨c, hc, isSeparator_of_even heq⟩

/-- A network path begins with two separators. -/
theorem IsNetwork.getElem? (h : IsNetwork path) {i : Nat} (hi : i < 2) :
    ∃ c, path[i]? = some c ∧ isSeparator c = true := by
  refine separator_of_even ?_
  rw [← List.getElem?_take_of_lt hi, h]
  match i, hi with
  | 0, _ => rfl
  | 1, _ => rfl

/-- The colon behind a letter is a colon of the path. -/
theorem colon_even : (even path)[1]? = some (.char ':') ↔ path[1]? = some (.char ':') := by
  rw [even, List.getElem?_map]
  cases path[1]? with
  | none => exact ⟨nofun, nofun⟩
  | some c =>
    rw [Option.map_some, Option.some.injEq, Option.some.injEq]
    split
    next hc =>
      rw [hc]
      exact ⟨fun h => absurd h (by decide), fun h => absurd h (by decide)⟩
    next => exact Iff.rfl

/-- Where the search for the host of a network path begins. -/
def hostStart (path : Text) : Nat :=
  if capitals ((even path).take 8) = longNetworkMark then 8 else 2

theorem splitDrive_eq (path : Text) :
    splitDrive path =
      if IsNetwork path then
        match backslashFrom? (even path) (hostStart path) with
        | none => (path, [])
        | some i =>
          match backslashFrom? (even path) (i + 1) with
          | none => (path, [])
          | some j => (path.take j, path.drop j)
      else if (even path)[1]? = some (.char ':') then (path.take 2, path.drop 2)
      else ([], path) := rfl

theorem splitDrive_letter (hpath : ¬ IsNetwork path) (h : path[1]? = some (.char ':')) :
    splitDrive path = (path.take 2, path.drop 2) := by
  rw [splitDrive_eq, if_neg hpath, if_pos (colon_even.mpr h)]

theorem splitDrive_bare (hpath : ¬ IsNetwork path) (h : path[1]? ≠ some (.char ':')) :
    splitDrive path = ([], path) := by
  rw [splitDrive_eq, if_neg hpath, if_neg (mt colon_even.mp h)]

/-- A backslash that is found is one, and the first. -/
theorem backslashFrom?_eq_some {t : Text} {start i : Nat} (h : backslashFrom? t start = some i) :
    start ≤ i ∧ t[i]? = some backslash := by
  obtain ⟨k, hk, rfl⟩ := Option.map_eq_some_iff.mp h
  obtain ⟨hlt, hfound, -⟩ := List.findIdx?_eq_some_iff_getElem.mp hk
  refine ⟨Nat.le_add_left _ _, ?_⟩
  have hget : (t.drop start)[k]? = some backslash := by
    rw [List.getElem?_eq_getElem hlt, of_decide_eq_true hfound]
  rwa [List.getElem?_drop, Nat.add_comm] at hget

/-- A backslash that is found is found in a longer text too. -/
theorem backslashFrom?_append {t : Text} {start i : Nat} (h : backslashFrom? t start = some i)
    (rest : Text) : backslashFrom? (t ++ rest) start = some i := by
  obtain ⟨k, hk, rfl⟩ := Option.map_eq_some_iff.mp h
  have hlt := (List.findIdx?_eq_some_iff_getElem.mp hk).1
  have hstart : start ≤ t.length := by
    rw [List.length_drop] at hlt
    omega
  rw [backslashFrom?, List.drop_append_of_le_length hstart, List.findIdx?_append, hk]
  rfl

/-- In the long spelling of a network path no backslash stands behind the question mark but the one
before `UNC` and the one behind it. -/
theorem hostStart_append {i j : Nat} (hi : backslashFrom? (even path) (hostStart path) = some i)
    (hj : backslashFrom? (even path) (i + 1) = some j) (rest : Text) :
    hostStart (path ++ rest) = hostStart path := by
  obtain ⟨hstart, hi⟩ := backslashFrom?_eq_some hi
  obtain ⟨hbehind, hj⟩ := backslashFrom?_eq_some hj
  have hlength : j < path.length := length_even path ▸ (List.getElem?_eq_some_iff.mp hj).1
  rcases Nat.lt_or_ge path.length 8 with hshort | hlong
  · have hplain : hostStart path = 2 := by
      refine if_neg fun heq => ?_
      have hcount := congrArg List.length heq
      rw [capitals, List.length_map, List.length_take, length_even] at hcount
      have : longNetworkMark.length = 8 := rfl
      omega
    rw [hplain] at hstart ⊢
    refine if_neg fun heq => ?_
    have hmark : ∀ {k : Nat}, k < 8 → (even path)[k]? = some backslash →
        longNetworkMark[k]? = some backslash := by
      intro k hk hback
      have hlt := (List.getElem?_eq_some_iff.mp hback).1
      rw [← heq, capitals, List.getElem?_map, List.getElem?_take_of_lt hk, even_append,
        List.getElem?_append_left hlt, hback]
      rfl
    have hfirst := hmark (by omega) hi
    have hsecond := hmark (by omega) hj
    have hnone : ∀ k, k < 7 → longNetworkMark[k]? = some backslash → k < 4 := by decide
    have hquestion : longNetworkMark[2]? ≠ some backslash := by decide
    have := hnone j (by omega) hsecond
    have hthree : i = 2 := by omega
    exact hquestion (hthree ▸ hfirst)
  · rw [hostStart, even_append, List.take_append_of_le_length (by rw [length_even]; exact hlong)]
    rfl

/-- What is put behind a network path that goes on behind its share is on the same drive. -/
theorem splitDrive_append_network (hpath : IsNetwork path) (hbase : (splitDrive path).2 ≠ []) :
    (∃ c, (splitDrive path).2.head? = some c ∧ isSeparator c = true) ∧
      ∀ rest, splitDrive (path ++ rest) = ((splitDrive path).1, (splitDrive path).2 ++ rest) := by
  rw [splitDrive_eq, if_pos hpath] at hbase ⊢
  cases hi : backslashFrom? (even path) (hostStart path) with
  | none => rw [hi] at hbase; exact absurd rfl hbase
  | some i =>
    rw [hi] at hbase
    dsimp only at hbase ⊢
    cases hj : backslashFrom? (even path) (i + 1) with
    | none => rw [hj] at hbase; exact absurd rfl hbase
    | some j =>
      obtain ⟨-, hfound⟩ := backslashFrom?_eq_some hj
      have hlength : j < path.length := length_even path ▸ (List.getElem?_eq_some_iff.mp hfound).1
      constructor
      · obtain ⟨c, hc, hseparator⟩ := separator_of_even hfound
        exact ⟨c, by rw [List.head?_drop, hc], hseparator⟩
      · intro rest
        have hnetwork : IsNetwork (path ++ rest) := by
          have htwo : 2 ≤ (even path).length := by
            have := congrArg List.length hpath
            rw [List.length_take] at this
            have : [backslash, backslash].length = 2 := rfl
            omega
          rw [IsNetwork, even_append, List.take_append_of_le_length htwo]
          exact hpath
        rw [splitDrive_eq, if_pos hnetwork, hostStart_append hi hj rest, even_append,
          backslashFrom?_append hi]
        dsimp only
        rw [backslashFrom?_append hj]
        dsimp only
        rw [List.take_append_of_le_length (Nat.le_of_lt hlength),
          List.drop_append_of_le_length (Nat.le_of_lt hlength)]

/-! ## Names in directories -/

theorem IsName.not_isNetwork (h : IsName name) : ¬ IsNetwork name := by
  intro hnetwork
  obtain ⟨c, hc, hseparator⟩ := hnetwork.getElem? Nat.zero_lt_two
  rw [h.separator c (List.mem_of_getElem? hc)] at hseparator
  cases hseparator

theorem IsName.splitDrive (h : IsName name) : splitDrive name = ([], name) :=
  splitDrive_bare h.not_isNetwork fun hcolon => h.colon (List.mem_of_getElem? hcolon)

/-- A path on a drive with a separator at its end, if there is anything that it could end. -/
def opened (base : Text) : Text :=
  if base.getLast?.any (!isSeparator ·) then base ++ [backslash] else base

/-- What is put behind an opened path begins a name. -/
theorem takeRightWhile_opened (base : Text) (h : IsName name) :
    Text.takeRightWhile (!isSeparator ·) (opened base ++ name) = name := by
  refine Text.takeRightWhile_append (fun c hc => ?_) fun c hc => by rw [h.separator c hc]; rfl
  unfold opened at hc
  split at hc
  next =>
    rw [List.getLast?_concat] at hc
    rw [← Option.some.inj hc]
    rfl
  next hlast => exact Bool.eq_false_iff.mpr fun hne => hlast (by rw [hc]; exact hne)

theorem join_name (directory : Text) (h : IsName name) :
    join directory name =
      glue (splitDrive directory).1 (opened (splitDrive directory).2 ++ name) := by
  have hhead : name.head?.any isSeparator = false := by
    cases name with
    | nil => rfl
    | cons c name => exact h.separator c List.mem_cons_self
  simp only [join, h.splitDrive, hhead, opened, List.isEmpty_nil, Bool.not_true, Bool.false_and,
    Bool.false_eq_true, if_false, if_true]

/-- A separator is put in behind a host and share only. -/
theorem glue_eq {drive base : Text}
    (h : drive.getLast?.any (· ≠ .char ':') = true → base.head?.any (!isSeparator ·) = false) :
    glue drive base = drive ++ base := by
  rw [glue, if_neg]
  intro hboth
  obtain ⟨hhead, hdrive⟩ := Bool.and_eq_true_iff.mp hboth
  rw [h hdrive] at hhead
  cases hhead

theorem splitDrive_append (path : Text) : (splitDrive path).1 ++ (splitDrive path).2 = path := by
  rw [splitDrive_eq]
  repeat' split
  all_goals simp only [List.take_append_drop, List.append_nil, List.nil_append]

/-- Opening a path leaves what it begins with. -/
theorem opened_append (base name : Text) : ∃ rest, opened base ++ name = base ++ rest := by
  unfold opened
  split
  · exact ⟨_, List.append_assoc ..⟩
  · exact ⟨name, rfl⟩

/-- A name behind a bare directory does not make a drive of it. -/
theorem splitDrive_opened (hname : IsName name) (hpath : ¬ IsNetwork path)
    (hcolon : path[1]? ≠ some (.char ':')) :
    splitDrive (opened path ++ name) = ([], opened path ++ name) := by
  match path with
  | [] => exact hname.splitDrive
  | [c] =>
    by_cases hc : isSeparator c = true
    · have hopened : opened [c] = [c] := by
        rw [opened, if_neg]
        intro h
        rw [List.getLast?_singleton, Option.any_some, hc] at h
        cases h
      rw [hopened, List.singleton_append]
      match name with
      | [] => exact absurd rfl hname.nonempty
      | d :: name =>
        refine splitDrive_bare (fun hnetwork => ?_) fun h => hname.colon ?_
        · obtain ⟨e, he, hseparator⟩ := hnetwork.getElem? Nat.one_lt_two
          cases he
          rw [hname.separator d List.mem_cons_self] at hseparator
          cases hseparator
        · cases h
          exact List.mem_cons_self
    · have hopened : opened [c] = [c, backslash] := by
        rw [opened, if_pos]
        · rfl
        · rw [List.getLast?_singleton, Option.any_some, Bool.eq_false_iff.mpr hc]
          rfl
      rw [hopened]
      refine splitDrive_bare (fun hnetwork => ?_) fun h =>
        absurd (Option.some.inj h : backslash = .char ':') (by decide)
      obtain ⟨e, he, hseparator⟩ := hnetwork.getElem? Nat.zero_lt_two
      cases he
      exact hc hseparator
  | c :: d :: rest =>
    obtain ⟨more, hmore⟩ := opened_append (c :: d :: rest) name
    rw [hmore]
    exact splitDrive_bare hpath hcolon

/-- A joined name is behind the drive of the directory and what is there of the path. -/
theorem splitDrive_join (hname : IsName name) (hdirectory : TakesNames directory) :
    (splitDrive (join directory name)).2 = opened (splitDrive directory).2 ++ name := by
  rw [join_name directory hname]
  by_cases hnetwork : IsNetwork directory
  · obtain ⟨⟨c, hc, hseparator⟩, hbehind⟩ :=
      splitDrive_append_network hnetwork (hdirectory hnetwork)
    obtain ⟨rest, hrest⟩ := opened_append (splitDrive directory).2 name
    have hhead : ((splitDrive directory).2 ++ rest).head?.any (!isSeparator ·) = false := by
      rw [List.head?_append, hc, Option.some_or, Option.any_some, hseparator]
      rfl
    rw [hrest, glue_eq fun _ => hhead, ← List.append_assoc, splitDrive_append, hbehind]
  by_cases hletter : directory[1]? = some (.char ':')
  · match directory, hletter with
    | c :: d :: base, hletter =>
      cases hletter
      rw [splitDrive_letter hnetwork rfl]
      have hglue : glue ((c :: .char ':' :: base).take 2)
          (opened ((c :: .char ':' :: base).drop 2) ++ name) =
            c :: .char ':' :: (opened base ++ name) := glue_eq nofun
      rw [hglue, splitDrive_letter (fun h => hnetwork ?_) rfl]
      · rfl
      · exact h
  · rw [splitDrive_bare hnetwork hletter]
    have hglue : glue [] (opened directory ++ name) = opened directory ++ name := glue_eq nofun
    rw [hglue, splitDrive_opened hname hnetwork hletter]

/-- The last name of a path that a name is joined to. -/
theorem baseName_join (hname : IsName name) (hdirectory : TakesNames directory) :
    baseName (join directory name) = name := by
  rw [baseName, splitDrive_join hname hdirectory, takeRightWhile_opened _ hname]

/-- No separator is in the last name of a path. -/
theorem isName_baseName (hname : baseName path ≠ []) (hcolon : .char ':' ∉ baseName path) :
    IsName (baseName path) := by
  refine ⟨hname, fun c hc => ?_, hcolon⟩
  have hkept := Text.of_mem_takeRightWhile hc
  rwa [Bool.not_eq_true'] at hkept

/-- A joined name is found again. -/
theorem settled_join (hname : IsName name) (hdirectory : TakesNames directory) :
    Settled directory (join directory name) := by
  have hbase := baseName_join hname hdirectory
  refine ⟨?_, ?_⟩
  · rw [hbase]
    exact hname.nonempty
  · rw [hbase]

/-! ## What a joined path is made of -/

theorem mem_iff_mem_splitDrive {c : CodePoint} :
    c ∈ path ↔ c ∈ (splitDrive path).1 ∨ c ∈ (splitDrive path).2 := by
  rw [← List.mem_append, splitDrive_append]

theorem mem_glue {drive base : Text} {c : CodePoint} :
    c ∈ drive ∨ c ∈ base → c ∈ glue drive base := by
  intro h
  unfold glue
  split
  next => simpa using h.imp_right .inr
  next => simpa using h

theorem of_mem_glue {drive base : Text} {c : CodePoint} (h : c ∈ glue drive base) :
    c = backslash ∨ c ∈ drive ∨ c ∈ base := by
  unfold glue at h
  split at h
  next =>
    simp only [List.mem_append, List.mem_singleton] at h
    rcases h with (h | h) | h
    · exact .inr (.inl h)
    · exact .inl h
    · exact .inr (.inr h)
  next => exact .inr (List.mem_append.mp h)

/-- Nothing of a path is lost behind a directory. -/
theorem mem_join {directory : Text} {c : CodePoint} (h : c ∈ path) : c ∈ join directory path := by
  have hparts := mem_iff_mem_splitDrive.mp h
  unfold join
  dsimp only
  split
  next =>
    apply mem_glue
    split
    next => exact hparts
    next hdrive =>
      refine .inr (hparts.resolve_left fun hc => hdrive ?_)
      simp [List.ne_nil_of_mem hc]
  next =>
    split
    next => exact mem_glue hparts
    next =>
      apply mem_glue
      rcases hparts with hc | hc
      · rw [if_neg (by simp [List.ne_nil_of_mem hc])]
        exact .inl hc
      · exact .inr (List.mem_append_right _ hc)

/-- A joined path is made of the directory, the path and separators. -/
theorem of_mem_join {directory : Text} {c : CodePoint} (h : c ∈ join directory path) :
    c = backslash ∨ c ∈ directory ∨ c ∈ path := by
  have hdirectory := @mem_iff_mem_splitDrive directory c
  have hpath := @mem_iff_mem_splitDrive path c
  unfold join at h
  dsimp only at h
  split at h
  next =>
    rcases of_mem_glue h with hc | hc | hc
    · exact .inl hc
    · split at hc
      next => exact .inr (.inr (hpath.mpr (.inl hc)))
      next => exact .inr (.inl (hdirectory.mpr (.inl hc)))
    · exact .inr (.inr (hpath.mpr (.inr hc)))
  next =>
    split at h
    next => exact (of_mem_glue h).imp_right fun hc => .inr (hpath.mpr hc)
    next =>
      rcases of_mem_glue h with hc | hc | hc
      · exact .inl hc
      · split at hc
        next => exact .inr (.inl (hdirectory.mpr (.inl hc)))
        next => exact .inr (.inr (hpath.mpr (.inl hc)))
      · rcases List.mem_append.mp hc with hc | hc
        · split at hc
          next =>
            rcases List.mem_append.mp hc with hc | hc
            · exact .inr (.inl (hdirectory.mpr (.inr hc)))
            · exact .inl (List.mem_singleton.mp hc)
          next => exact .inr (.inl (hdirectory.mpr (.inr hc)))
        · exact .inr (.inr (hpath.mpr (.inr hc)))

end NodeBootstrap.DrivePath
