import SkeletonWeave.FileSystem.Basic

/-!
# Files with another text

A file gets another text and stays where it is. Paths lead where they led, and
all other files are read as before.
-/

set_option autoImplicit false

namespace SkeletonWeave.FileSystem

def exchange (fs : FileSystem) (location : Location) (bytes : ByteArray) : FileSystem :=
  { fs with
    entries := fs.entries.map fun e => (e.1, if e.1 = location then .file bytes else e.2) }

variable {fs : FileSystem} {location : Location} {bytes old : ByteArray}

theorem lookup_map (f : Location → FileEntry → FileEntry) (entries : List (Location × FileEntry))
    (l : Location) :
    (entries.map fun e => (e.1, f e.1 e.2)).lookup l = (entries.lookup l).map (f l) := by
  induction entries with
  | nil => rfl
  | cons e entries ih =>
    obtain ⟨k, entry⟩ := e
    rw [List.map_cons, List.lookup_cons, List.lookup_cons]
    cases hKey : l == k with
    | true =>
      obtain rfl := eq_of_beq hKey
      rfl
    | false => exact ih

theorem entry?_exchange_of_ne {l : Location} (h : l ≠ location) :
    entry? (fs.exchange location bytes) l = fs.entry? l := by
  unfold entry? exchange
  split
  · rfl
  · rw [lookup_map fun k entry => if k = location then .file bytes else entry]
    simp [h]

theorem entry?_exchange_self (h : fs.entry? location = some (.file old)) :
    entry? (fs.exchange location bytes) location = some (.file bytes) := by
  unfold entry? at h
  unfold entry? exchange
  split at h
  · cases h
  · next hRoot =>
    rw [if_neg hRoot, lookup_map fun k entry => if k = location then .file bytes else entry, h]
    simp

theorem isDirectoryAt_exchange (h : fs.entry? location = some (.file old)) (l : Location) :
    (fs.exchange location bytes).isDirectoryAt l = fs.isDirectoryAt l := by
  unfold isDirectoryAt
  by_cases hSame : l = location
  · rw [hSame, entry?_exchange_self h, h]
  · rw [entry?_exchange_of_ne hSame]

theorem follow_exchange (h : fs.entry? location = some (.file old)) (links : Nat) (here : Location)
    (segments : List String) :
    (fs.exchange location bytes).follow links here segments = fs.follow links here segments := by
  have hSame {l : Location} (hOther : ∀ old, fs.entry? l ≠ some (.file old)) :
      entry? (fs.exchange location bytes) l = fs.entry? l := by
    refine entry?_exchange_of_ne ?_
    rintro rfl
    exact hOther old h
  fun_induction fs.follow links here segments with
  | case1 links here => rw [follow]
  | case2 links here s rest hDirectory hIdle ih =>
    rw [follow, isDirectoryAt_exchange h, if_pos hDirectory, if_pos hIdle, ih]
  | case3 links here rest hDirectory hIdle ih =>
    rw [follow, isDirectoryAt_exchange h, if_pos hDirectory, if_neg hIdle, if_pos rfl, ih]
  | case4 links here s rest hDirectory hIdle hUp hEntry =>
    rw [follow, isDirectoryAt_exchange h, if_pos hDirectory, if_neg hIdle, if_neg hUp,
      hSame (by simp [hEntry]), hEntry]
  | case5 here s rest hDirectory hIdle hUp target hEntry =>
    rw [follow, isDirectoryAt_exchange h, if_pos hDirectory, if_neg hIdle, if_neg hUp,
      hSame (by simp [hEntry]), hEntry]
  | case6 here s rest hDirectory hIdle hUp target hEntry links ih =>
    rw [follow, isDirectoryAt_exchange h, if_pos hDirectory, if_neg hIdle, if_neg hUp,
      hSame (by simp [hEntry]), hEntry]
    exact ih
  | case7 links here s rest hDirectory hIdle hUp entry hNoLink hEntry ih =>
    rw [follow, isDirectoryAt_exchange h, if_pos hDirectory, if_neg hIdle, if_neg hUp]
    by_cases hLocation : here ++ [s] = location
    · rw [hLocation] at ih ⊢
      rw [entry?_exchange_self h]
      exact ih
    · rw [entry?_exchange_of_ne hLocation, hEntry]
      split
      · next hNone => cases hNone
      · next target hLink => exact absurd (Option.some.inj hLink) (hNoLink target)
      · exact ih
  | case8 links here s rest hDirectory =>
    rw [follow, isDirectoryAt_exchange h, if_neg hDirectory]

theorem locate?_exchange (h : fs.entry? location = some (.file old)) (path : String) :
    (fs.exchange location bytes).locate? path = fs.locate? path := by
  unfold locate?
  rw [follow_exchange h]
  rfl

theorem canonical?_exchange (h : fs.entry? location = some (.file old)) (path : String) :
    (fs.exchange location bytes).canonical? path = fs.canonical? path := by
  rw [canonical?, canonical?, locate?_exchange h]

theorem read?_of_locate? {path : String} {l : Location} (hPath : fs.locate? path = some l)
    (hEntry : fs.entry? l = some (.file bytes)) : fs.read? path = some bytes := by
  simp only [read?, hPath, Option.bind_eq_bind, Option.bind_some, hEntry]

theorem read?_exchange_of_ne (h : fs.entry? location = some (.file old)) {path : String}
    (hOther : fs.locate? path ≠ some location) :
    (fs.exchange location bytes).read? path = fs.read? path := by
  rw [read?, read?, locate?_exchange h]
  cases hPath : fs.locate? path with
  | none => rfl
  | some l =>
    have hNe : l ≠ location := by
      rintro rfl
      exact hOther hPath
    simp only [Option.bind_eq_bind, Option.bind_some, entry?_exchange_of_ne hNe]

theorem read?_exchange_self (h : fs.entry? location = some (.file old)) {path : String}
    (hPath : fs.locate? path = some location) :
    (fs.exchange location bytes).read? path = some bytes :=
  read?_of_locate? ((locate?_exchange h path).trans hPath) (entry?_exchange_self h)

theorem isFile_exchange (h : fs.entry? location = some (.file old)) (path : String) :
    (fs.exchange location bytes).isFile path = fs.isFile path := by
  rw [isFile, isFile]
  by_cases hPath : fs.locate? path = some location
  · rw [read?_exchange_self h hPath, read?_of_locate? hPath h]
    rfl
  · rw [read?_exchange_of_ne h hPath]

def withText (fs : FileSystem) (path text : String) : FileSystem :=
  match fs.locate? path with
  | some location => fs.exchange location text.toUTF8
  | none => fs

theorem exists_entry_of_read? {path : String} (h : fs.read? path = some old) :
    ∃ location, fs.locate? path = some location ∧ fs.entry? location = some (.file old) := by
  rw [read?, Option.bind_eq_bind, Option.bind_eq_some_iff] at h
  obtain ⟨location, hPath, h⟩ := h
  split at h
  · next hEntry =>
    cases h
    exact ⟨location, hPath, hEntry⟩
  · cases h

/-- What the exchange of a text leaves as it is, and what it does to the file. -/
structure Exchanged (fs fs' : FileSystem) (path text : String) : Prop where
  located : (fs.canonical? path).isSome = true
  count : fs'.entries.length = fs.entries.length
  canonical : ∀ other, fs'.canonical? other = fs.canonical? other
  isFile : ∀ other, fs'.isFile other = fs.isFile other
  others : ∀ other, fs.canonical? other ≠ fs.canonical? path → fs'.readText? other = fs.readText? other
  reads : fs'.readText? path = some text

theorem exchanged_withText {path old : String} (text : String) (h : fs.readText? path = some old) :
    Exchanged fs (fs.withText path text) path text := by
  rw [readText?, Option.bind_eq_bind, Option.bind_eq_some_iff] at h
  obtain ⟨bytes, hRead, -⟩ := h
  obtain ⟨location, hPath, hEntry⟩ := exists_entry_of_read? hRead
  rw [withText, hPath]
  refine ⟨by rw [canonical?, hPath]; rfl, by simp [exchange], canonical?_exchange hEntry, isFile_exchange hEntry, ?_, ?_⟩
  · intro other hOther
    rw [readText?, readText?, read?_exchange_of_ne hEntry]
    intro hSame
    exact hOther (by rw [canonical?, canonical?, hSame, hPath])
  · rw [readText?, read?_exchange_self hEntry hPath]
    simp [String.fromUTF8?, String.isValidUTF8, String.fromUTF8]

end SkeletonWeave.FileSystem
