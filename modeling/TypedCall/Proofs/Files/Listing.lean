import TypedCall.Proofs.Component.Reading
import TypedCall.Proofs.Entries
import TypedCall.Proofs.Files.Paths

/-!
# Listing a directory by a pattern

The pattern for the entries of a directory is its path with one more segment, which matches every
name. When no character of the path means anything in a pattern, its segments stand for themselves
(`ofChars_listing`), and the pattern finds exactly the entries of the directory that the path leads
to, in their order (`expand_listingPattern`). A segment `.` at the front is not written into the
paths that are found, so an empty segment behind it leads nowhere (`Direct`).
-/

namespace TypedCall.Files

/-! ## Reading the pattern -/

/-- The character stands for itself in a pattern. -/
def IsPlain (c : Char) : Prop := c ≠ '?' ∧ c ≠ '*' ∧ c ≠ '['

instance : DecidablePred IsPlain := fun _ => inferInstanceAs (Decidable (_ ∧ _))

theorem readTokens_cons {c : Char} (h : IsPlain c) (before : Option Char) (position fuel : Nat)
    (rest : List Char) :
    readTokens before position (fuel + 1) (c :: rest) =
      (Token.char c :: ·) <$> readTokens (some c) (position + 1) fuel rest := by
  obtain ⟨hany, hrun, hclass⟩ := h
  rw [readTokens.eq_def]
  split <;> simp_all

/-- Characters that stand for themselves are read as such, up to the first other one. -/
theorem readTokens_append {cs : List Char} (h : ∀ c ∈ cs, IsPlain c) (before : Option Char)
    (position fuel : Nat) (rest : List Char) :
    readTokens before position (cs.length + fuel) (cs ++ rest) =
      (cs.map Token.char ++ ·) <$>
        readTokens (cs.getLast?.or before) (position + cs.length) fuel rest := by
  induction cs generalizing before position with
  | nil => simp
  | cons c cs ih =>
    obtain ⟨hc, hcs⟩ := List.forall_mem_cons.mp h
    have hlength : (c :: cs).length + fuel = cs.length + fuel + 1 := by
      rw [List.length_cons]
      omega
    have hlast : (c :: cs).getLast?.or before = cs.getLast?.or (some c) := by
      cases hcs : cs.getLast? <;> simp [List.getLast?_cons, hcs]
    have hposition : position + (c :: cs).length = position + 1 + cs.length := by
      rw [List.length_cons]
      omega
    rw [hlength, List.cons_append, readTokens_cons hc, ih hcs, hlast, hposition, Functor.map_map]
    rfl

/-- A segment without special characters is read as it is. -/
theorem tokensOf_plain {cs : List Char} (h : ∀ c ∈ cs, IsPlain c) :
    tokensOf cs = .ok (cs.map Token.char) := by
  have hread := readTokens_append h none 0 0 []
  rw [List.append_nil, Nat.add_zero] at hread
  rw [tokensOf, hread, readTokens.eq_def]
  simp

/-- Characters that stand for themselves make a literal. -/
theorem literalOf?_map_char (cs : List Char) : literalOf? (cs.map Token.char) = some cs := by
  induction cs with
  | nil => rfl
  | cons c cs ih => rw [List.map_cons, literalOf?, ih, Option.map_some]

theorem ofTokens_map_char (cs : List Char) :
    Segment.ofTokens (cs.map Token.char) = .literal (String.ofList cs) := by
  rw [Segment.ofTokens, literalOf?_map_char]

/-- The pattern for the entries of a directory. -/
def listingPattern (dir : String) : Pattern :=
  ⟨false, (Text.split '/' dir).map .literal ++ [.wild [.anyRun]]⟩

/-- A segment without special characters stands for itself. -/
theorem segmentOf_plain {cs : List Char} (h : ∀ c ∈ cs, IsPlain c) :
    (do return Segment.ofTokens (← tokensOf cs) : Except PatternError Segment) =
      .ok (.literal (String.ofList cs)) := by
  rw [tokensOf_plain h, ← ofTokens_map_char]
  rfl

/-- The pattern that is written for a directory, when no character of its path has a meaning. -/
theorem ofChars_listing {dir : String} (h : ∀ c ∈ dir.toList, IsPlain c) (hne : dir ≠ "")
    (hrelative : dir.toList.head? ≠ some '/') :
    Pattern.ofChars (dir.toList ++ ['/', '*']) = .ok (listingPattern dir) := by
  have hwhole : tokensOf (dir.toList ++ ['/', '*']) =
      .ok ((dir.toList ++ ['/']).map Token.char ++ [.anyRun]) := by
    have hplain : ∀ c ∈ dir.toList ++ ['/'], IsPlain c :=
      List.forall_mem_append.mpr ⟨h, by simp [IsPlain]⟩
    have hread := readTokens_append hplain none 0 1 ['*']
    have hlength : (dir.toList ++ ['/', '*']).length = (dir.toList ++ ['/']).length + 1 := by simp
    have hsplit : dir.toList ++ ['/', '*'] = (dir.toList ++ ['/']) ++ ['*'] := by simp
    rw [tokensOf, hlength, hsplit, hread]
    rfl
  have hparts : patternParts (dir.toList ++ ['/', '*']) =
      Text.splitChars '/' dir.toList ++ [['*']] := by
    rw [patternParts, Text.splitChars_append]
    simp [Text.splitChars]
  have hsegments : (Text.splitChars '/' dir.toList).mapM
      (fun part => do return Segment.ofTokens (← tokensOf part)) =
      (.ok ((Text.split '/' dir).map .literal) : Except PatternError (List Segment)) := by
    rw [mapM_eq_ok, Text.split, List.map_map, List.forall₂_map_right_iff, List.forall₂_same]
    intro part hpart
    exact segmentOf_plain fun c hc => h c ((Text.mem_of_mem_splitChars hpart).2 c hc)
  have habsolute : ∀ rest, dir.toList ++ ['/', '*'] = '/' :: rest → False := by
    intro rest hrest
    have hhead : (dir.toList ++ ['/', '*']).head? = dir.toList.head? :=
      List.head?_append_of_ne_nil _ fun hnil => hne (String.toList_eq_nil_iff.mp hnil)
    exact hrelative (by rw [← hhead, hrest]; rfl)
  rw [Pattern.ofChars, hwhole]
  · simp only [Json.ok_bind, hparts, List.mapM_append, hsegments]
    rfl
  · exact habsolute

/-! ## Walking the pattern -/

/-- Behind the segments `.` at the front no empty one follows. -/
def Direct (segments : List String) : Prop := (segments.dropWhile (· = ".")).head? ≠ some ""

instance (segments : List String) : Decidable (Direct segments) :=
  inferInstanceAs (Decidable (_ ≠ _))

theorem Direct.ne_empty {s : String} {segments : List String} (h : Direct (s :: segments)) :
    s ≠ "" := by
  rintro rfl
  exact h rfl

theorem Direct.tail {segments : List String} (h : Direct ("." :: segments)) : Direct segments := h

/-- A path that is joined has a slash, unless nothing has been walked. -/
theorem slash_mem_joinPath {path s : String} (h : path ≠ ".") : '/' ∈ (joinPath path s).toList := by
  rw [joinPath, if_neg h]
  split
  · next hlast =>
    rw [String.toList_append]
    exact List.mem_append_left _ (List.mem_of_getLast? hlast)
  · simp

/-- What follows a segment is direct, as long as nothing but `.` has been walked. -/
theorem direct_of_joinPath {path s : String} {segments : List String}
    (h : path = "." → Direct (s :: segments)) (hjoin : joinPath path s = ".") :
    Direct segments := by
  by_cases hdot : path = "."
  · rw [joinPath, if_pos hdot] at hjoin
    subst hjoin
    exact (h hdot).tail
  · have hslash := slash_mem_joinPath (s := s) hdot
    rw [hjoin] at hslash
    exact absurd hslash (by decide)

/-- The places that segments lead to, with the path that is written for the way there. -/
theorem foldlM_enter? (segments : List String) (h : Hit) :
    segments.foldlM Hit.enter? h =
      match segments.foldlM Place.enter h.place with
      | .ok place => some ⟨segments.foldl joinPath h.path, segments.getLast?.getD h.name, place⟩
      | .error _ => none := by
  induction segments generalizing h with
  | nil => rfl
  | cons s segments ih =>
    rw [List.foldlM_cons, List.foldlM_cons, Hit.enter?]
    cases hplace : h.place.enter s with
    | error e => rfl
    | ok place =>
      have hname : (s :: segments).getLast?.getD h.name = segments.getLast?.getD s := by
        rw [List.getLast?_cons, Option.getD_some]
      rw [hname]
      exact ih ⟨joinPath h.path s, s, place⟩

/-- Segments that stand for themselves are walked one after the other. -/
theorem expandFrom_literals {segments : List String} (rest : List Segment) {h : Hit}
    (hdirect : h.path = "." → Direct segments) :
    expandFrom (segments.map .literal ++ rest) h =
      (segments.foldlM Hit.enter? h).toList.flatMap (expandFrom rest) := by
  induction segments generalizing h with
  | nil => simp
  | cons s segments ih =>
    have hleads : ¬ (s = "" ∧ h.path = ".") := fun hs => (hdirect hs.2).ne_empty hs.1
    rw [List.map_cons, List.cons_append, expandFrom, if_neg hleads, List.foldlM_cons]
    cases henter : h.enter? s with
    | none => rfl
    | some next =>
      have hpath : next.path = joinPath h.path s := by
        rw [Hit.enter?] at henter
        split at henter
        · obtain rfl := Option.some.inj henter
          rfl
        · cases henter
      have hnext := ih (h := next) fun hdot => direct_of_joinPath hdirect (hpath ▸ hdot)
      simpa using hnext

theorem anySuffix_of_nil {test : List Char → Bool} (h : test [] = true) (cs : List Char) :
    anySuffix test cs = true := by
  induction cs with
  | nil => exact h
  | cons c cs ih => rw [anySuffix, ih, Bool.or_true]

/-- The last segment matches every entry. -/
theorem expandFrom_anyRun (h : Hit) : expandFrom [.wild [.anyRun]] h = h.children := by
  have haccepts : ∀ name, Segment.accepts name (.wild [.anyRun]) = true := fun name =>
    anySuffix_of_nil rfl name.toList
  have hdots : Segment.beginsWithDot (.wild [.anyRun]) = false := rfl
  simp [expandFrom, haccepts, hdots]

/-- The path that is found for an entry of a directory. -/
def entryPath (dir name : String) : String :=
  joinPath ((Text.split '/' dir).foldl joinPath ".") name

/-- The pattern for the entries of a directory finds them all, and nothing else. -/
theorem expand_listingPattern (tree : Tree) {dir : String} (h : Direct (Text.split '/' dir)) :
    tree.expand (listingPattern dir) =
      match tree.follow dir with
      | .ok place => place.node.entries.map fun e => entryPath dir e.1
      | .error _ => [] := by
  have hwalk := foldlM_enter? (Text.split '/' dir) ⟨".", "", tree⟩
  have hlisting : expandFrom (listingPattern dir).segments ⟨".", "", tree⟩ = _ :=
    expandFrom_literals [.wild [.anyRun]] fun _ => h
  have hrelative : ¬ (listingPattern dir).absolute = true := Bool.false_ne_true
  rw [Tree.expand, if_neg hrelative, hlisting, hwalk, ← Tree.follow]
  cases tree.follow dir with
  | error e => rfl
  | ok place =>
    simp [expandFrom_anyRun, Hit.children, entryPath]

/-! ## Where the paths lead -/

/-- The path begins where the program is. -/
def IsRelative (path : String) : Prop := path ≠ "" ∧ path.toList.head? ≠ some '/'

/-- A path the segments of which are direct is relative. -/
theorem isRelative_of_direct {dir : String} (h : Direct (Text.split '/' dir)) : IsRelative dir := by
  constructor
  · rintro rfl
    exact h rfl
  · intro hhead
    obtain ⟨cs, hcs⟩ := List.head?_eq_some_iff.mp hhead
    rw [Text.split, hcs] at h
    exact h rfl

theorem isRelative_joinPath {path s : String} (h : IsRelative path) (hs : '/' ∉ s.toList)
    (hleads : path = "." → s ≠ "") : IsRelative (joinPath path s) := by
  obtain ⟨hne, hhead⟩ := h
  by_cases hdot : path = "."
  · rw [joinPath, if_pos hdot]
    exact ⟨hleads hdot, fun hslash => hs (List.mem_of_head? hslash)⟩
  · have hslash := slash_mem_joinPath (s := s) hdot
    have hchars : path.toList ≠ [] := fun hnil => hne (String.toList_eq_nil_iff.mp hnil)
    refine ⟨fun hempty => by simp [hempty] at hslash, ?_⟩
    rw [joinPath, if_neg hdot]
    split
    · rwa [String.toList_append, List.head?_append_of_ne_nil _ hchars]
    · rwa [String.toList_append, String.toList_append, List.append_assoc,
        List.head?_append_of_ne_nil _ hchars]

/-- Walking from a relative path leads to a relative path, if no empty segment is written first. -/
theorem isRelative_foldl {segments : List String} {path : String} (h : IsRelative path)
    (hs : ∀ s ∈ segments, '/' ∉ s.toList) (hdirect : path = "." → Direct segments) :
    IsRelative (segments.foldl joinPath path) := by
  induction segments generalizing path with
  | nil => exact h
  | cons s segments ih =>
    obtain ⟨hfirst, hrest⟩ := List.forall_mem_cons.mp hs
    exact ih (isRelative_joinPath h hfirst fun hdot => (hdirect hdot).ne_empty) hrest
      fun hjoin => direct_of_joinPath hdirect hjoin

theorem not_mem_joinPath {path s : String} {c : Char} (hpath : c ∉ path.toList)
    (hs : c ∉ s.toList) (hc : c ≠ '/') : c ∉ (joinPath path s).toList := by
  rw [joinPath]
  split
  · exact hs
  · split <;> simp [hpath, hs, hc]

/-- Joining paths brings no characters in but slashes. -/
theorem not_mem_foldl_joinPath {segments : List String} {path : String} {c : Char}
    (hpath : c ∉ path.toList) (hs : ∀ s ∈ segments, c ∉ s.toList) (hc : c ≠ '/') :
    c ∉ (segments.foldl joinPath path).toList := by
  induction segments generalizing path with
  | nil => exact hpath
  | cons s segments ih =>
    obtain ⟨hfirst, hrest⟩ := List.forall_mem_cons.mp hs
    exact ih (not_mem_joinPath hpath hfirst hc) hrest

/-- A path that the system takes is followed. -/
theorem locate_eq_follow {tree : Tree} {path : String} (h : IsRelative path)
    (hnul : '\x00' ∉ path.toList) (hshort : path.utf8ByteSize ≤ 4095) :
    tree.locate path = tree.follow path := by
  have hcontains : path.toList.contains '\x00' = false := by simpa using hnul
  have hlong : ¬ 4095 < path.utf8ByteSize := by omega
  rw [Tree.locate, hcontains, if_neg h.1, if_neg hlong, if_neg h.2]
  rfl

/-- What is found for an entry leads into the directory, and there to the entry. -/
theorem follow_entryPath {tree : Tree} {dir name : String} (hname : '/' ∉ name.toList) :
    tree.follow (entryPath dir name) = tree.follow dir >>= fun p => p.enter name := by
  have hsegments : ∀ s ∈ Text.split '/' dir, '/' ∉ s.toList := fun s => Text.not_mem_of_mem_split
  rw [entryPath, follow_joinPath hname, follow_foldl_joinPath hsegments]
  -- the `.` that the way begins with makes no difference before the first segment
  have hstart : (tree.follow "." >>= fun p => (Text.split '/' dir).foldlM Place.enter p) =
      tree.follow dir := by
    have hdot : tree.follow "." = tree.enter "." := by
      rw [Tree.follow, Text.split_of_not_mem (by decide), List.foldlM_cons]
      exact bind_pure _
    rw [hdot, Tree.follow]
    cases hsplit : Text.split '/' dir with
    | nil => exact absurd (List.map_eq_nil_iff.mp hsplit) (Text.splitChars_ne_nil '/' dir.toList)
    | cons s segments =>
      simp only [List.foldlM_cons]
      rw [← bind_assoc, enter_stay (.inr rfl)]
  rw [hstart]

/-! ## Directories -/

/-- The names that entries of a directory can have: no two have the same. -/
structure ProperNames (entries : List (String × Node)) : Prop where
  distinct : (entries.map (·.1)).Nodup
  name : ∀ e ∈ entries, e.1 ≠ "" ∧ e.1 ≠ "." ∧ e.1 ≠ ".." ∧ e.1.utf8ByteSize ≤ 255
  chars : ∀ e ∈ entries, '/' ∉ e.1.toList ∧ '\x00' ∉ e.1.toList

/-- A path of a directory that is taken for what it is by a pattern and by the system. -/
structure IsListable (dir : String) : Prop where
  plain : ∀ c ∈ dir.toList, IsPlain c
  direct : Direct (Text.split '/' dir)
  nul : '\x00' ∉ dir.toList
  short : dir.utf8ByteSize ≤ 4095

theorem find?_eq_lookup (name : String) (entries : List (String × Node)) :
    Node.find? name entries = entries.lookup name := by
  induction entries with
  | nil => rfl
  | cons entry entries ih =>
    obtain ⟨n, node⟩ := entry
    rw [Node.find?, ih, Entries.lookup_cons_eq_ite]

/-- Where no name occurs twice, every entry is found. -/
theorem find?_of_mem {entries : List (String × Node)} (h : (entries.map (·.1)).Nodup)
    {e : String × Node} (he : e ∈ entries) : Node.find? e.1 entries = some e.2 := by
  rw [find?_eq_lookup]
  exact (Entries.lookup_eq_some_iff_mem h).mpr he

theorem mem_of_find? {name : String} {node : Node} {entries : List (String × Node)}
    (h : Node.find? name entries = some node) : (name, node) ∈ entries := by
  rw [find?_eq_lookup] at h
  exact Entries.mem_of_lookup h

/-- What is entered by its name is an entry. -/
theorem mem_of_enter {p place : Place} {name : String} {entries : List (String × Node)}
    (hp : p.node = .directory entries) (hstay : ¬(name = "" ∨ name = ".")) (hup : name ≠ "..")
    (h : p.enter name = .ok place) : name ∈ entries.map (·.1) := by
  simp only [Place.enter, hp, if_neg hstay, if_neg hup] at h
  split at h
  · cases h
  · split at h
    · next node hnode => exact List.mem_map_of_mem (f := Prod.fst) (mem_of_find? hnode)
    · cases h

/-- A file under a name that is no path is an entry. -/
theorem mem_of_isFile {tree : Tree} {name : String} {entries : List (String × Node)}
    (htree : tree.node = .directory entries) (hslash : '/' ∉ name.toList) (hdot : name ≠ ".")
    (hup : name ≠ "..") (hfile : tree.isFile name = true) : name ∈ entries.map (·.1) := by
  have hhead : name.toList.head? ≠ some '/' := fun h => hslash (List.mem_of_head? h)
  rw [Tree.isFile, Tree.locate, if_neg hhead, Text.split_of_not_mem hslash,
    List.foldlM_cons] at hfile
  simp only [List.foldlM_nil, bind_pure] at hfile
  split at hfile
  · next place hplace =>
    split_ifs at hplace with hnul hempty hlong
    exact mem_of_enter htree (not_or.mpr ⟨hempty, hdot⟩) hup hplace
  · cases hfile

/-- Every entry can be entered by its name. -/
theorem enter_entry {place : Place} (h : ProperNames place.node.entries) {e : String × Node}
    (he : e ∈ place.node.entries) :
    place.enter e.1 = .ok ⟨e.2, place.node :: place.above⟩ := by
  obtain ⟨hempty, hdot, hdots, hsize⟩ := h.name e he
  have hfound := find?_of_mem h.distinct he
  cases hnode : place.node with
  | file text =>
    rw [hnode] at he
    cases he
  | directory entries =>
    rw [hnode] at hfound
    have hstay : ¬ (e.1 = "" ∨ e.1 = ".") := not_or.mpr ⟨hempty, hdot⟩
    have hlong : ¬ 255 < e.1.utf8ByteSize := by omega
    change Node.find? e.1 entries = some e.2 at hfound
    simp only [Place.enter, hnode, if_neg hstay, if_neg hdots, if_neg hlong, hfound]

section Listing

variable {tree : Tree} {dir : String} {place : Place}

theorem IsListable.locate_eq (h : IsListable dir) : tree.locate dir = tree.follow dir :=
  locate_eq_follow (isRelative_of_direct h.direct) h.nul h.short

theorem IsListable.ofChars (h : IsListable dir) :
    Pattern.ofChars (dir.toList ++ ['/', '*']) = .ok (listingPattern dir) :=
  ofChars_listing h.plain (isRelative_of_direct h.direct).1 (isRelative_of_direct h.direct).2

/-- What is found for an entry leads to the entry. -/
theorem IsListable.locate_entryPath (h : IsListable dir) (hplace : tree.locate dir = .ok place)
    (hnames : ProperNames place.node.entries) {e : String × Node} (he : e ∈ place.node.entries)
    (hshort : (entryPath dir e.1).utf8ByteSize ≤ 4095) :
    tree.locate (entryPath dir e.1) = .ok ⟨e.2, place.node :: place.above⟩ := by
  obtain ⟨hslash, hnul⟩ := hnames.chars e he
  have hsegments : ∀ s ∈ Text.split '/' dir, '/' ∉ s.toList := fun s => Text.not_mem_of_mem_split
  have hpath : IsRelative ((Text.split '/' dir).foldl joinPath ".") :=
    isRelative_foldl ⟨by decide, by decide⟩ hsegments fun _ => h.direct
  have hrelative : IsRelative (entryPath dir e.1) :=
    isRelative_joinPath hpath hslash fun _ => (hnames.name e he).1
  have hchars : '\x00' ∉ (entryPath dir e.1).toList :=
    not_mem_joinPath (not_mem_foldl_joinPath (by decide)
      (fun s hs hc => h.nul (Text.mem_of_mem_split hs hc)) (by decide)) hnul (by decide)
  rw [h.locate_eq] at hplace
  rw [locate_eq_follow hrelative hchars hshort, follow_entryPath hslash, hplace]
  exact enter_entry hnames he

/-- A path has the extension of the entry at its end. -/
theorem extension?_entryPath (dir : String) {name : String} (hname : '/' ∉ name.toList) :
    extension? (entryPath dir name) = extension? name := by
  rw [extension?, extension?, entryPath, getLast?_split_joinPath hname, Text.split_of_not_mem hname]
  rfl

end Listing

end TypedCall.Files
