import TypeWatch.File.Store
import TypeWatch.Proofs.Basic

/-! # Where paths lead

The path of a place leads there from the root, whatever the working directory is, if the names on the way
are those of directories (`contains_pathTo`). A path that does not begin at the root leads where it leads
after the path of the working directory (`find_pathTo_working`). A file that is written is read by the path
that it was written by, wherever the path goes from and whatever directories were made on the way
(`read_write`). -/
namespace TypeWatch.FileStore
set_option autoImplicit false

/-! ## Entries -/

theorem entryAt?_put (s : FileStore) (place : Place) (e : FileEntry) {other : Place} (h : other ≠ []) :
    (s.put place e).entryAt? other = if other = place then some e else s.entryAt? other := by
  rw [entryAt?.eq_2 _ _ h, entryAt?.eq_2 _ _ h, put, lookup_cons_if, lookup_filter_ne]
  by_cases hplace : other = place <;> simp [hplace]

theorem isDirectory_iff (s : FileStore) (place : Place) :
    s.isDirectory place = true ↔ s.entryAt? place = some .directory := by
  unfold isDirectory
  split
  · rename_i h
    simp [h]
  · rename_i h
    simpa using h

/-! ## Steps along a path -/

variable {s t u : FileStore} {here there : Place} {part : String}

theorem enter_eq_ok_iff : s.enter here part = .ok there ↔ s.isDirectory here = true ∧
    (part = ".." ∧ there = here.dropLast ∨ part ≠ ".." ∧ isName part = false ∧ there = here ∨
      isName part = true ∧ (s.entryAt? (here ++ [part])).isSome = true ∧ there = here ++ [part]) := by
  unfold enter
  by_cases hhere : s.isDirectory here = true
  · by_cases hback : part = ".."
    · have hname : isName ".." = false := rfl
      simp [hhere, hback, hname, @eq_comm _ there]
    · cases isName part with
      | false => simp [hhere, hback, @eq_comm _ there]
      | true => by_cases hentry : (s.entryAt? (here ++ [part])).isSome = true <;>
          simp [hhere, hback, hentry, @eq_comm _ there]
  · simp [hhere]

theorem enter_eq_notFound_iff : s.enter here part = .error .notFound ↔
    s.isDirectory here = true ∧ isName part = true ∧ s.entryAt? (here ++ [part]) = none := by
  unfold enter
  by_cases hhere : s.isDirectory here = true
  · by_cases hback : part = ".."
    · have hname : isName ".." = false := rfl
      simp [hhere, hback, hname]
    · cases isName part with
      | false => simp [hhere, hback]
      | true => cases s.entryAt? (here ++ [part]) <;> simp [hhere, hback]
  · simp [hhere]

theorem find_eq {path : String} {ps : List String} (h : parts path = .ok ps) :
    s.find path = ps.foldlM s.enter (s.origin path) := by
  rw [find, h]
  rfl

theorem read_eq {path : String} {place : Place} {e : FileEntry} (hfind : s.find path = .ok place)
    (he : s.entryAt? place = some e) : s.read path = e.read := by
  simp only [read, hfind, bind, Except.bind, he]

/-! ## Paths of places -/

/-- The path of a place from the root. -/
def pathTo (place : Place) : String := String.ofList (place.flatMap fun name => '/' :: name.toList)

/-- A name that can be written in a path. -/
structure Fits (name : String) : Prop where
  isName : FileStore.isName name = true
  noSlash : '/' ∉ name.toList
  noNul : '\x00' ∉ name.toList

theorem split_append {cs rest first : List Char} {others : List (List Char)} (h : '/' ∉ cs)
    (hrest : split rest = first :: others) : split (cs ++ rest) = (cs ++ first) :: others := by
  induction cs with
  | nil => exact hrest
  | cons c cs ih =>
    rw [List.mem_cons, not_or] at h
    rw [List.cons_append, split, if_neg (Ne.symm h.1), ih h.2]
    rfl

theorem toList_pathTo_cons (name : String) (place : Place) :
    (pathTo (name :: place)).toList = '/' :: (name.toList ++ (pathTo place).toList) := by
  simp [pathTo]

/-- What stands between the slashes of the path of a place, if the text after it begins with a slash or is
empty. -/
theorem split_pathTo {place : Place} (h : ∀ name ∈ place, Fits name) {rest : List Char}
    {others : List (List Char)} (hrest : split rest = [] :: others) :
    split ((pathTo place).toList ++ rest) = [] :: (place.map String.toList ++ others) := by
  induction place with
  | nil => exact hrest
  | cons name place ih =>
    rw [List.forall_mem_cons] at h
    rw [toList_pathTo_cons, List.cons_append, split, if_pos rfl, List.append_assoc,
      split_append h.1.noSlash (ih h.2), List.append_nil]
    rfl

theorem noNul_pathTo {place : Place} (h : ∀ name ∈ place, Fits name) : '\x00' ∉ (pathTo place).toList := by
  rw [pathTo, String.toList_ofList, List.mem_flatMap]
  rintro ⟨name, hname, hmem⟩
  rcases List.mem_cons.mp hmem with hslash | hmem
  · exact absurd hslash (by decide)
  · exact (h name hname).noNul hmem

theorem parts_pathTo {place : Place} (hroot : place ≠ []) (h : ∀ name ∈ place, Fits name) :
    parts (pathTo place) = .ok ("" :: place) := by
  have hne : pathTo place ≠ "" := by
    obtain ⟨name, rest, rfl⟩ := List.exists_cons_of_ne_nil hroot
    intro hempty
    simpa [toList_pathTo_cons] using congrArg String.toList hempty
  have hsplit := split_pathTo h (show split [] = [[]] from rfl)
  rw [List.append_nil, List.append_nil] at hsplit
  rw [parts, if_neg (by simpa using noNul_pathTo h), if_neg hne, hsplit]
  simp

theorem origin_pathTo (s : FileStore) {place : Place} (hroot : place ≠ []) : s.origin (pathTo place) = [] := by
  obtain ⟨name, rest, rfl⟩ := List.exists_cons_of_ne_nil hroot
  simp [origin, pathTo]

/-- A path of names leads through directories to the last of them. -/
theorem foldlM_enter_names {names : List String} (h : ∀ name ∈ names, isName name = true) :
    names.foldlM s.enter here = .ok there ↔ there = here ++ names ∧
      ∀ outer name, outer ++ [name] <+: names →
        s.isDirectory (here ++ outer) = true ∧ (s.entryAt? (here ++ outer ++ [name])).isSome = true := by
  induction names generalizing here with
  | nil => simp [pure, Except.pure, @eq_comm _ here there]
  | cons first names ih =>
    rw [List.forall_mem_cons] at h
    have hback : first ≠ ".." := by
      rintro rfl
      exact absurd h.1 (by decide)
    constructor
    · intro hgo
      rw [List.foldlM_cons] at hgo
      obtain ⟨next, hfirst, hrest⟩ := exists_of_bind_ok hgo
      obtain ⟨hhere, hthere | ⟨-, hno, -⟩ | ⟨-, hentry, rfl⟩⟩ := enter_eq_ok_iff.mp hfirst
      · exact absurd hthere.1 hback
      · exact absurd (h.1.symm.trans hno) (by decide)
      · obtain ⟨rfl, hall⟩ := (ih h.2).mp hrest
        refine ⟨by simp, fun outer name hprefix => ?_⟩
        cases outer with
        | nil =>
          obtain ⟨rfl, -⟩ := List.cons_prefix_cons.mp hprefix
          simpa using ⟨hhere, hentry⟩
        | cons second outer =>
          obtain ⟨rfl, hwithin⟩ := List.cons_prefix_cons.mp hprefix
          simpa using hall outer name hwithin
    · rintro ⟨rfl, hall⟩
      obtain ⟨hhere, hentry⟩ := hall [] first (by simp)
      rw [List.append_nil] at hhere hentry
      have hfirst : s.enter here first = .ok (here ++ [first]) :=
        enter_eq_ok_iff.mpr ⟨hhere, .inr (.inr ⟨h.1, hentry, rfl⟩)⟩
      rw [List.foldlM_cons, hfirst]
      refine (ih h.2).mpr ⟨by simp, fun outer name hprefix => ?_⟩
      simpa using hall (first :: outer) name (List.cons_prefix_cons.mpr ⟨rfl, hprefix⟩)

/-- The path of a place leads to something if it leads through directories and something is there. -/
theorem contains_pathTo (s : FileStore) {place : Place} (hroot : place ≠ []) (h : ∀ name ∈ place, Fits name) :
    s.contains (pathTo place) = true ↔ ∀ outer name, outer ++ [name] <+: place →
      s.isDirectory outer = true ∧ (s.entryAt? (outer ++ [name])).isSome = true := by
  have hfind : s.find (pathTo place) = place.foldlM s.enter [] := by
    rw [find_eq (parts_pathTo hroot h), origin_pathTo s hroot, List.foldlM_cons]
    rfl
  have hnames : ∀ name ∈ place, isName name = true := fun name hname => (h name hname).isName
  rw [contains, hfind]
  constructor
  · intro hok
    cases hthere : place.foldlM s.enter [] with
    | error e =>
      rw [hthere] at hok
      cases hok
    | ok there => exact ((foldlM_enter_names hnames).mp hthere).2
  · intro hall
    have hthere : place.foldlM s.enter [] = .ok place := (foldlM_enter_names hnames).mpr ⟨rfl, hall⟩
    rw [hthere]
    rfl

/-- A path that goes from the working directory leads where it leads after the path of that directory. -/
theorem find_pathTo_working (s : FileStore) {path : String} (hne : path ≠ "")
    (hrelative : path.toList.head? ≠ some '/') (h : ∀ name ∈ s.working, Fits name)
    (hworking : s.working.foldlM s.enter [] = .ok s.working) :
    s.find (pathTo s.working ++ "/" ++ path) = s.find path := by
  have hchars : (pathTo s.working ++ "/" ++ path).toList = (pathTo s.working).toList ++ '/' :: path.toList := by
    simp
  have hrooted : s.origin (pathTo s.working ++ "/" ++ path) = [] := by
    refine if_pos ?_
    rw [hchars]
    cases s.working with
    | nil => rfl
    | cons name place => rw [toList_pathTo_cons]; rfl
  have hlonger : pathTo s.working ++ "/" ++ path ≠ "" := fun hempty => by
    simpa [hempty] using congrArg List.length hchars
  have hsplit := split_pathTo h (show split ('/' :: path.toList) = [] :: split path.toList from if_pos rfl)
  rw [← hchars] at hsplit
  by_cases hnul : '\x00' ∈ path.toList
  · have hparts : parts (pathTo s.working ++ "/" ++ path) = .error .badName := by simp [parts, hnul]
    have hparts' : parts path = .error .badName := by simp [parts, hnul]
    rw [find, find, hparts, hparts']
    rfl
  · have hparts : parts path = .ok ((split path.toList).map String.ofList) := by simp [parts, hnul, hne]
    have hparts' : parts (pathTo s.working ++ "/" ++ path) =
        .ok ("" :: (s.working ++ (split path.toList).map String.ofList)) := by
      have hall : '\x00' ∉ (pathTo s.working ++ "/" ++ path).toList := by
        rw [hchars]
        simp [noNul_pathTo h, hnul]
      rw [parts, if_neg (by simpa using hall), if_neg hlonger, hsplit]
      simp
    rw [find_eq hparts, find_eq hparts', hrooted, show s.origin path = s.working from if_neg hrelative,
      List.foldlM_cons, show s.enter [] "" = .ok [] from rfl]
    show (s.working ++ _).foldlM s.enter [] = _
    rw [List.foldlM_append, hworking]
    rfl

/-! ## Ways that stay open -/

/-- Every way that can be gone in the first store can be gone in the second. -/
structure Opens (s t : FileStore) : Prop where
  working : t.working = s.working
  directories : ∀ place, s.isDirectory place = true → t.isDirectory place = true
  entries : ∀ place, (s.entryAt? place).isSome = true → (t.entryAt? place).isSome = true

namespace Opens

theorem refl (s : FileStore) : s.Opens s := ⟨rfl, fun _ h => h, fun _ h => h⟩

theorem trans (h : s.Opens t) (h' : t.Opens u) : s.Opens u :=
  ⟨h'.working.trans h.working, fun place hs => h'.directories place (h.directories place hs),
    fun place hs => h'.entries place (h.entries place hs)⟩

/-- An entry that does not take the place of a directory closes no way. -/
theorem put (s : FileStore) {place : Place} (h : s.isDirectory place = false) (e : FileEntry) :
    s.Opens (s.put place e) := by
  refine ⟨rfl, fun other hs => ?_, fun other hs => ?_⟩
  · by_cases hroot : other = []
    · rw [hroot]
      rfl
    · have hne : other ≠ place := fun heq => by simp [← heq, hs] at h
      rw [isDirectory_iff] at hs ⊢
      rw [entryAt?_put s place e hroot, if_neg hne, hs]
  · by_cases hroot : other = []
    · rw [hroot]
      rfl
    · rw [entryAt?_put s place e hroot]
      split
      · rfl
      · exact hs

theorem enter (h : s.Opens t) (hs : s.enter here part = .ok there) : t.enter here part = .ok there := by
  rw [enter_eq_ok_iff] at hs ⊢
  obtain ⟨hhere, hback | hstay | ⟨hname, hentry, hthere⟩⟩ := hs
  · exact ⟨h.directories here hhere, .inl hback⟩
  · exact ⟨h.directories here hhere, .inr (.inl hstay)⟩
  · exact ⟨h.directories here hhere, .inr (.inr ⟨hname, h.entries _ hentry, hthere⟩)⟩

theorem foldlM_enter (h : s.Opens t) {ps : List String} (hs : ps.foldlM s.enter here = .ok there) :
    ps.foldlM t.enter here = .ok there := by
  induction ps generalizing here with
  | nil => exact hs
  | cons part ps ih =>
    rw [List.foldlM_cons] at hs ⊢
    obtain ⟨next, hpart, hrest⟩ := exists_of_bind_ok hs
    rw [h.enter hpart]
    exact ih hrest

end Opens

/-! ## Directories that are made -/

/-- A step that makes a directory can be gone in the store that it leads to. -/
theorem enterNew_eq_ok (h : enterNew (s, here) part = .ok (t, there)) :
    s.Opens t ∧ t.enter here part = .ok there := by
  unfold enterNew at h
  split at h
  · rename_i hmissing
    obtain ⟨hhere, hname, hnone⟩ := enter_eq_notFound_iff.mp hmissing
    obtain ⟨rfl, rfl⟩ := Prod.mk.inj (Except.ok.inj h)
    have hfree : s.isDirectory (here ++ [part]) = false := by simp [isDirectory, hnone]
    have hopens := Opens.put s hfree .directory
    refine ⟨hopens, enter_eq_ok_iff.mpr ⟨hopens.directories here hhere, .inr (.inr ⟨hname, ?_, rfl⟩)⟩⟩
    simp [entryAt?_put]
  · cases hpart : s.enter here part with
    | error e =>
      rw [hpart] at h
      cases h
    | ok next =>
      rw [hpart] at h
      obtain ⟨rfl, rfl⟩ := Prod.mk.inj (Except.ok.inj h)
      exact ⟨.refl s, hpart⟩

theorem foldlM_enterNew_eq_ok {ps : List String} (h : ps.foldlM enterNew (s, here) = .ok (t, there)) :
    s.Opens t ∧ ps.foldlM t.enter here = .ok there := by
  induction ps generalizing s here with
  | nil =>
    obtain ⟨rfl, rfl⟩ := Prod.mk.inj (Except.ok.inj h)
    exact ⟨.refl s, rfl⟩
  | cons part ps ih =>
    rw [List.foldlM_cons] at h ⊢
    obtain ⟨⟨made, next⟩, hpart, hothers⟩ := exists_of_bind_ok h
    obtain ⟨hmade, hstep⟩ := enterNew_eq_ok hpart
    obtain ⟨hrest, hway⟩ := ih hothers
    rw [hrest.enter hstep]
    exact ⟨hmade.trans hrest, hway⟩

/-! ## Writing -/

theorem eq_of_target? {ps outer : List String} {name : String} (h : target? ps = some (outer, name)) :
    ps = outer ++ [name] ∧ isName name = true := by
  unfold target? at h
  split at h
  · rename_i last hlast
    split at h
    · rename_i hname
      obtain ⟨rfl, rfl⟩ := Prod.mk.inj (Option.some.inj h)
      obtain ⟨outer, rfl⟩ := List.getLast?_eq_some_iff.mp hlast
      exact ⟨by rw [List.dropLast_concat], hname⟩
    · cases h
  · cases h

/-- All that writing a file may do. -/
theorem write_eq_or (s : FileStore) (path : String) (content : ByteArray) :
    s.write path content = s ∨ ∃ outer name made directory,
      parts path = .ok (outer ++ [name]) ∧ isName name = true ∧
      outer.foldlM enterNew (s, s.origin path) = .ok (made, directory) ∧
      made.isDirectory directory = true ∧ made.isDirectory (directory ++ [name]) = false ∧
      s.write path content = made.put (directory ++ [name]) (.file content) := by
  cases hparts : parts path with
  | error e =>
    left
    simp [write, hparts, Except.toOption]
  | ok ps =>
    cases htarget : target? ps with
    | none =>
      left
      simp [write, hparts, Except.toOption, htarget]
    | some target =>
      obtain ⟨outer, name⟩ := target
      obtain ⟨rfl, hname⟩ := eq_of_target? htarget
      cases hmade : outer.foldlM enterNew (s, s.origin path) with
      | error e =>
        left
        simp [write, hparts, Except.toOption, htarget, hmade]
      | ok made =>
        obtain ⟨made, directory⟩ := made
        by_cases hfree : made.isDirectory directory = true ∧ made.isDirectory (directory ++ [name]) = false
        · refine .inr ⟨outer, name, made, directory, rfl, hname, hmade, hfree.1, hfree.2, ?_⟩
          simp [write, hparts, Except.toOption, htarget, hmade, hfree]
        · left
          simp [write, hparts, Except.toOption, htarget, hmade, hfree]

/-- A file that is written is read by its path. -/
theorem read_write (s : FileStore) (path : String) (content : ByteArray) :
    s.write path content = s ∨ (s.write path content).read path = (FileEntry.file content).read := by
  refine (s.write_eq_or path content).imp_right ?_
  rintro ⟨outer, name, made, directory, hparts, hname, hmade, hdirectory, hfree, hwrite⟩
  obtain ⟨hopens, hway⟩ := foldlM_enterNew_eq_ok hmade
  have hput := Opens.put made hfree (.file content)
  have hentry : (made.put (directory ++ [name]) (.file content)).entryAt? (directory ++ [name]) =
      some (.file content) := by
    simp [entryAt?_put]
  have hlast : (made.put (directory ++ [name]) (.file content)).enter directory name =
      .ok (directory ++ [name]) :=
    enter_eq_ok_iff.mpr ⟨hput.directories _ hdirectory, .inr (.inr ⟨hname, by simp [hentry], rfl⟩)⟩
  have horigin : (s.write path content).origin path = s.origin path := by
    rw [hwrite, origin, origin, hput.working, hopens.working]
  have hfind : (s.write path content).find path = .ok (directory ++ [name]) := by
    rw [find_eq hparts, horigin, hwrite, List.foldlM_append, hput.foldlM_enter hway]
    simp only [bind, Except.bind, List.foldlM_cons, hlast, List.foldlM_nil]
    rfl
  exact read_eq hfind (hwrite ▸ hentry)

end TypeWatch.FileStore
