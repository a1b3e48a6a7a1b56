import TypedCall.Files.Expansion
import Mathlib.Data.List.Basic

/-!
# Walking paths

A path is walked segment by segment. To join a segment to a path is to walk one segment further
(`follow_joinPath`), whatever `.` or doubled slashes are left out of the written path, so a path
that is put together from segments leads where the segments lead.
-/

namespace TypedCall

/-! ## Splitting -/

namespace Text

variable {separator : Char}

theorem splitChars_ne_nil (separator : Char) (cs : List Char) : splitChars separator cs ≠ [] := by
  cases cs with
  | nil => simp [splitChars]
  | cons c cs =>
    rw [splitChars]
    split
    · simp
    · split <;> simp

/-- The parts on both sides of a separator. -/
theorem splitChars_append (cs ds : List Char) :
    splitChars separator (cs ++ separator :: ds) =
      splitChars separator cs ++ splitChars separator ds := by
  induction cs with
  | nil => simp [splitChars]
  | cons c cs ih =>
    rw [List.cons_append, splitChars, splitChars]
    split
    · rw [ih, List.cons_append]
    · rw [ih]
      cases hcs : splitChars separator cs with
      | nil => exact absurd hcs (splitChars_ne_nil separator cs)
      | cons part parts => rfl

/-- Without a separator there is one part. -/
theorem splitChars_of_not_mem {cs : List Char} (h : separator ∉ cs) :
    splitChars separator cs = [cs] := by
  induction cs with
  | nil => rfl
  | cons c cs ih =>
    obtain ⟨hc, hcs⟩ := not_or.mp (List.mem_cons.not.mp h)
    rw [splitChars, if_neg (Ne.symm hc), ih hcs]

/-- No part holds a separator, and all its characters are characters of the text. -/
theorem mem_of_mem_splitChars {cs part : List Char} (h : part ∈ splitChars separator cs) :
    separator ∉ part ∧ ∀ c ∈ part, c ∈ cs := by
  induction cs generalizing part with
  | nil =>
    obtain rfl := List.mem_singleton.mp h
    simp
  | cons c cs ih =>
    rw [splitChars] at h
    split at h
    · rcases List.mem_cons.mp h with rfl | h
      · simp
      · exact ⟨(ih h).1, fun d hd => List.mem_cons_of_mem c ((ih h).2 d hd)⟩
    · next hc =>
      cases hcs : splitChars separator cs with
      | nil => exact absurd hcs (splitChars_ne_nil separator cs)
      | cons first parts =>
        rw [hcs] at h
        have hmem : ∀ q ∈ first :: parts, separator ∉ q ∧ ∀ d ∈ q, d ∈ cs :=
          fun q hq => ih (by rwa [hcs])
        have hfirst := hmem first List.mem_cons_self
        rcases List.mem_cons.mp h with rfl | h
        · refine ⟨List.mem_cons.not.mpr (not_or.mpr ⟨Ne.symm hc, hfirst.1⟩), fun d hd => ?_⟩
          exact List.mem_cons.mpr ((List.mem_cons.mp hd).imp_right (hfirst.2 d))
        · have hpart := hmem part (List.mem_cons_of_mem first h)
          exact ⟨hpart.1, fun d hd => List.mem_cons_of_mem c (hpart.2 d hd)⟩

/-- No part has a separator inside. -/
theorem not_mem_of_mem_split {s part : String} (h : part ∈ split separator s) :
    separator ∉ part.toList := by
  obtain ⟨cs, hcs, rfl⟩ := List.mem_map.mp h
  rw [String.toList_ofList]
  exact (mem_of_mem_splitChars hcs).1

theorem mem_of_mem_split {s part : String} {c : Char} (h : part ∈ split separator s)
    (hc : c ∈ part.toList) : c ∈ s.toList := by
  obtain ⟨cs, hcs, rfl⟩ := List.mem_map.mp h
  rw [String.toList_ofList] at hc
  exact (mem_of_mem_splitChars hcs).2 c hc

theorem split_of_not_mem {s : String} (h : separator ∉ s.toList) : split separator s = [s] := by
  rw [split, splitChars_of_not_mem h, List.map_singleton, String.ofList_toList]

end Text

namespace Files

/-! ## Following a path -/

/-- The place that a path leads to from the working directory, however long the path is. -/
def Tree.follow (tree : Tree) (path : String) : Except FileError Place :=
  (Text.split '/' path).foldlM Place.enter tree

/-- A segment that stays where it is makes no difference before another segment. -/
theorem enter_stay {stay : String} (h : stay = "" ∨ stay = ".") (p : Place) (s : String) :
    (p.enter stay >>= fun q => q.enter s) = p.enter s := by
  cases hp : p.node with
  | file text => simp only [Place.enter, hp]; rfl
  | directory entries =>
    have hstay : p.enter stay = .ok p := by simp only [Place.enter, hp, if_pos h]
    rw [hstay]
    rfl

/-- The segments of a path with one more: the last segment makes room for it when it is `.` alone or
empty. -/
theorem split_joinPath (path : String) {s : String} (hs : '/' ∉ s.toList) :
    Text.split '/' (joinPath path s) = Text.split '/' path ++ [s] ∨
      ∃ segments stay, (stay = "" ∨ stay = ".") ∧ Text.split '/' path = segments ++ [stay] ∧
        Text.split '/' (joinPath path s) = segments ++ [s] := by
  have hsplit := Text.split_of_not_mem hs
  rw [joinPath]
  split
  · next hdot =>
    subst hdot
    exact .inr ⟨[], ".", .inr rfl, Text.split_of_not_mem (by decide), hsplit⟩
  · split
    · next hlast =>
      obtain ⟨front, hfront⟩ := List.getLast?_eq_some_iff.mp hlast
      have hpath : (path ++ s).toList = front ++ '/' :: s.toList := by
        rw [String.toList_append, hfront, List.append_assoc, List.singleton_append]
      refine .inr ⟨(Text.splitChars '/' front).map String.ofList, "", .inl rfl, ?_, ?_⟩
      · rw [Text.split, hfront, Text.splitChars_append, List.map_append]
        rfl
      · rw [Text.split, hpath, Text.splitChars_append, List.map_append, ← Text.split, hsplit]
    · have hpath : (path ++ "/" ++ s).toList = path.toList ++ '/' :: s.toList := by simp
      left
      rw [Text.split, hpath, Text.splitChars_append, List.map_append, ← Text.split, ← Text.split,
        hsplit]

/-- The last part of a joined path is what was joined. -/
theorem getLast?_split_joinPath {path s : String} (hs : '/' ∉ s.toList) :
    (Text.split '/' (joinPath path s)).getLast? = some s := by
  rcases split_joinPath path hs with h | ⟨segments, stay, -, -, h⟩
  · rw [h, List.getLast?_concat]
  · rw [h, List.getLast?_concat]

/-- A segment that is joined to a path leads one segment further. -/
theorem follow_joinPath {tree : Tree} {path s : String} (hs : '/' ∉ s.toList) :
    tree.follow (joinPath path s) = tree.follow path >>= fun p => p.enter s := by
  rcases split_joinPath path hs with h | ⟨segments, stay, hstay, hpath, h⟩
  · rw [Tree.follow, h, List.foldlM_append, ← Tree.follow]
    simp only [List.foldlM_cons, List.foldlM_nil, bind_pure]
  · rw [Tree.follow, Tree.follow, h, hpath, List.foldlM_append, List.foldlM_append]
    simp only [List.foldlM_cons, List.foldlM_nil, bind_pure, bind_assoc, enter_stay hstay]

/-- Segments that are joined to a path lead as far as they lead. -/
theorem follow_foldl_joinPath {tree : Tree} {segments : List String} {path : String}
    (hs : ∀ s ∈ segments, '/' ∉ s.toList) :
    tree.follow (segments.foldl joinPath path) =
      tree.follow path >>= fun p => segments.foldlM Place.enter p := by
  induction segments generalizing path with
  | nil => simp only [List.foldl_nil, List.foldlM_nil, bind_pure]
  | cons s segments ih =>
    obtain ⟨hfirst, hrest⟩ := List.forall_mem_cons.mp hs
    rw [List.foldl_cons, ih hrest, follow_joinPath hfirst, bind_assoc]
    simp only [List.foldlM_cons]

/-! ## The root -/

@[simp] theorem Place.root_root (p : Place) : p.root.root = p.root := rfl

/-- A place and the places in it are below the same root. -/
theorem Place.root_below (node upper : Node) (above : List Node) :
    (⟨node, upper :: above⟩ : Place).root = (⟨upper, above⟩ : Place).root := by
  rw [Place.root, Place.root, List.getLastD_cons]

/-- The directory above stands in the same tree. -/
theorem Place.root_parent (p : Place) : p.parent.root = p.root := by
  obtain ⟨node, above⟩ := p
  cases above with
  | nil => rfl
  | cons upper above => exact (Place.root_below node upper above).symm

/-- Up or down, a segment leads to a place below the same root. -/
theorem Place.root_of_enter {p q : Place} {s : String} (h : p.enter s = .ok q) :
    q.root = p.root := by
  rw [Place.enter] at h
  split at h
  · cases h
  · split_ifs at h with hstay hup hlong
    · exact Except.ok.inj h ▸ rfl
    · exact Except.ok.inj h ▸ p.root_parent
    · split at h
      · exact Except.ok.inj h ▸ Place.root_below _ p.node p.above
      · cases h

/-- However far one walks, one stays below the same root. -/
theorem Place.root_of_foldlM_enter {segments : List String} {p q : Place}
    (h : segments.foldlM Place.enter p = .ok q) : q.root = p.root := by
  induction segments generalizing p with
  | nil =>
    obtain rfl := Except.ok.inj h
    rfl
  | cons s segments ih =>
    rw [List.foldlM_cons] at h
    cases hnext : p.enter s with
    | error e =>
      rw [hnext] at h
      cases h
    | ok next =>
      rw [hnext] at h
      exact (ih h).trans (Place.root_of_enter hnext)

/-- A path that begins with a slash leads to the same place from wherever another path leads. -/
theorem locate_of_absolute {tree place : Tree} {dir path : String}
    (hdir : tree.locate dir = .ok place) (hpath : path.toList.head? = some '/') :
    place.locate path = tree.locate path := by
  have hroot : place.root = tree.root := by
    rw [Tree.locate] at hdir
    split_ifs at hdir with hnul hempty hlong habsolute
    · exact (Place.root_of_foldlM_enter hdir).trans tree.root_root
    · exact Place.root_of_foldlM_enter hdir
  simp only [Tree.locate, if_pos hpath, hroot]

end Files

end TypedCall
