import LoxLang.Files
import Mathlib.Data.List.Induction

namespace LoxLang.Sources
set_option autoImplicit true

/-- The file that a path leads to, if it can be opened. The path of standard input leads to none. -/
def readable? (disk : Disk ι) (path : Text) : Option ι :=
  if path = stdinPath then none else (disk.find? path).filter (isOpen disk)

theorem readable?_eq_some {disk : Disk ι} {i : ι} : readable? disk path = some i ↔
    path ≠ stdinPath ∧ disk.find? path = some i ∧ isOpen disk i = true := by
  unfold readable?
  split
  · simp [*]
  · simp [*, Option.filter_eq_some_iff]

def textOf (disk : Disk ι) (id : ι) : Text :=
  match disk.contents id with
  | .text t => t
  | _ => []

theorem filesText_eq {disk : Disk ι} {files : List ι}
    (h : ∀ i ∈ files, ∃ t, disk.contents i = .text t) :
    filesText disk files =
      ((files.map fun i => textOf disk i ++ [Text.newline]).flatten, none) := by
  induction files with
  | nil => rfl
  | cons i files ih =>
    obtain ⟨⟨t, ht⟩, hfiles⟩ := List.forall_mem_cons.1 h
    rw [filesText, ht, ih hfiles, List.map_cons, List.flatten_cons, textOf, ht]
    simp

variable [DecidableEq ι]

/-- The files that paths lead to and that can be opened, each at its first occurrence. -/
def readables (disk : Disk ι) (paths : List Text) : List ι :=
  (paths.filterMap (readable? disk)).eraseDups

/-- Standard input is listed by its own path or through its file. -/
def Asks (disk : Disk ι) (stdin : Option ι) (paths : List Text) : Prop :=
  stdinPath ∈ paths ∨ ∃ id ∈ readables disk paths, stdin = some id

instance (disk : Disk ι) (stdin : Option ι) (paths : List Text) :
    Decidable (Asks disk stdin paths) :=
  inferInstanceAs (Decidable (_ ∨ _))

/-- What the sources that paths lead to consist of: the text of each file and a line break, and
standard input last. -/
def parts (disk : Disk ι) (stdin : Option ι) (input : Text) (paths : List Text) : List Text :=
  ((readables disk paths).filter (stdin ≠ some ·)).map (fun id => textOf disk id ++ [Text.newline])
    ++ if Asks disk stdin paths then [input] else []

theorem mem_readables {disk : Disk ι} {i : ι} :
    i ∈ readables disk paths ↔ ∃ path ∈ paths, readable? disk path = some i := by
  rw [readables, List.mem_eraseDups, List.mem_filterMap]

/-- One more path leads to a file that was not found before, or adds nothing. -/
theorem readables_concat (disk : Disk ι) (paths : List Text) (path : Text) :
    readables disk (paths ++ [path]) = readables disk paths ++
      (readable? disk path).toList.filter (· ∉ readables disk paths) := by
  have hlast : [path].filterMap (readable? disk) = (readable? disk path).toList := by
    cases h : readable? disk path with
    | none => simp [h]
    | some i => simp [h]
  have hnew : (readable? disk path).toList.removeAll (paths.filterMap (readable? disk)) =
      (readable? disk path).toList.filter (· ∉ readables disk paths) := by
    simp only [List.removeAll, readables, List.mem_eraseDups, List.elem_eq_mem, decide_not]
  rw [readables, List.filterMap_append, List.eraseDups_append, hlast, hnew, ← readables]
  cases readable? disk path with
  | none => rfl
  | some i =>
    by_cases hi : i ∈ readables disk paths
    · simp [hi]
    · simp [hi, List.eraseDups_cons]

structure Met (disk : Disk ι) (stdin : Option ι) (paths : List Text) (s : Search ι) : Prop where
  seen : ∀ i, i ∈ s.seen ↔ ∃ path ∈ paths, path ≠ stdinPath ∧ disk.find? path = some i
  files : s.found.files = (readables disk paths).filter (stdin ≠ some ·)
  stdin : s.found.stdin = true ↔ Asks disk stdin paths

/-- What one more path adds: a file that it leads to is met, and is found if it is new and can be
opened. -/
theorem Met.next {disk : Disk ι} {input : Option ι} {s s' : Search ι}
    (h : Met disk input paths s) (new : List ι)
    (hnew : (readable? disk path).toList.filter (· ∉ readables disk paths) = new)
    (hseen : ∀ i, i ∈ s'.seen ↔ i ∈ s.seen ∨ path ≠ stdinPath ∧ disk.find? path = some i)
    (hfiles : s'.found.files = s.found.files ++ new.filter (input ≠ some ·))
    (hstdin : s'.found.stdin = true ↔
      s.found.stdin = true ∨ path = stdinPath ∨ ∃ i ∈ new, input = some i) :
    Met disk input (paths ++ [path]) s' := by
  have hall : readables disk (paths ++ [path]) = readables disk paths ++ new := by
    rw [readables_concat, hnew]
  constructor
  · intro i
    rw [hseen, h.seen]
    simp only [List.mem_append, List.mem_singleton, or_and_right, exists_or, exists_eq_left]
  · rw [hfiles, h.files, hall, List.filter_append]
  · rw [hstdin, h.stdin, Asks, Asks, hall]
    simp only [List.mem_append, List.mem_singleton, or_and_right, exists_or, eq_comm]
    exact or_or_or_comm

theorem visit_met {disk : Disk ι} {input : Option ι} {s : Search ι} (h : Met disk input paths s)
    (path : Text) : Met disk input (paths ++ [path]) (visit disk input s path) := by
  unfold visit
  split
  · rename_i hpath
    have hnone : readable? disk path = none := if_pos hpath
    exact h.next [] (by simp [hnone]) (by simp [hpath]) (by simp) (by simp [hpath])
  · rename_i hpath
    split
    · rename_i hfind
      have hnone : readable? disk path = none := by simp [readable?, hpath, hfind]
      exact h.next [] (by simp [hnone]) (by simp [hfind]) (by simp) (by simp [hpath])
    · rename_i i hfind
      have hread : readable? disk path = if isOpen disk i then some i else none := by
        simp [readable?, hpath, hfind, Option.filter]
      have hmet : ∀ j, path ≠ stdinPath ∧ disk.find? path = some j ↔ j = i := by
        simp [hpath, hfind, eq_comm]
      split
      · rename_i hseen
        -- The file was met before, so it was found then if it can be opened.
        have hold : isOpen disk i = true → i ∈ readables disk paths := by
          intro hopen
          obtain ⟨path', hmem, hpath', hfind'⟩ := (h.seen i).1 hseen
          exact mem_readables.2 ⟨path', hmem, readable?_eq_some.2 ⟨hpath', hfind', hopen⟩⟩
        refine h.next [] ?_ ?_ (by simp) (by simp [hpath])
        · rw [hread]
          cases hopen : isOpen disk i with
          | false => rfl
          | true => simp [hold hopen]
        · intro j
          rw [hmet]
          exact ⟨.inl, fun hj => hj.elim id fun he => he ▸ hseen⟩
      · rename_i hseen
        have hfresh : i ∉ readables disk paths := by
          intro hmem
          obtain ⟨path', hpath', hr⟩ := mem_readables.1 hmem
          obtain ⟨hne, hfind', -⟩ := readable?_eq_some.1 hr
          exact hseen ((h.seen i).2 ⟨path', hpath', hne, hfind'⟩)
        have hadd : ∀ j, j ∈ i :: s.seen ↔
            j ∈ s.seen ∨ path ≠ stdinPath ∧ disk.find? path = some j := by
          intro j
          rw [hmet, List.mem_cons, or_comm]
        dsimp only
        split
        · rename_i hopen
          have hnone : readable? disk path = none := by simpa [hread] using hopen
          exact h.next [] (by simp [hnone]) hadd (by simp) (by simp [hpath])
        · rename_i hopen
          have hsome : readable? disk path = some i := by simpa [hread] using hopen
          have hnew : (readable? disk path).toList.filter (· ∉ readables disk paths) = [i] := by
            simp [hsome, hfresh]
          split
          · rename_i hinput
            exact h.next [i] hnew hadd (by simp [hinput]) (by simp [hinput])
          · rename_i hinput
            exact h.next [i] hnew hadd (by simp [hinput]) (by simp [hinput, hpath])

theorem foldl_met (disk : Disk ι) (input : Option ι) (paths : List Text) :
    Met disk input paths (paths.foldl (visit disk input) ⟨[], ⟨[], false⟩⟩) := by
  induction paths using List.reverseRecOn with
  | nil => exact ⟨by simp, rfl, by simp [Asks, readables]⟩
  | append_singleton paths path ih =>
    rw [List.foldl_append, List.foldl_cons, List.foldl_nil]
    exact visit_met ih path

theorem Met.size {disk : Disk ι} {input : Option ι} {s : Search ι} (h : Met disk input paths s)
    (t : Text) : s.found.size = (parts disk input t paths).length := by
  rw [Sources.size, h.files, parts, List.length_append, List.length_map]
  by_cases hasks : Asks disk input paths
  · rw [if_pos (h.stdin.2 hasks), if_pos hasks, List.length_singleton]
  · rw [if_neg fun hs => hasks (h.stdin.1 hs), if_neg hasks, List.length_nil]

theorem parts_eq_nil_iff (disk : Disk ι) (stdin : Option ι) (input : Text) (paths : List Text) :
    parts disk stdin input paths = [] ↔
      stdinPath ∉ paths ∧ ∀ path ∈ paths, readable? disk path = none := by
  have hnone : readables disk paths = [] ↔ ∀ path ∈ paths, readable? disk path = none := by
    simp only [List.eq_nil_iff_forall_not_mem, mem_readables, not_exists, not_and,
      Option.eq_none_iff_forall_not_mem, Option.mem_def]
    exact ⟨fun h path hp i => h i path hp, fun h i path hp => h path hp i⟩
  rw [← hnone, parts, List.append_eq_nil_iff, List.map_eq_nil_iff, ite_eq_right_iff]
  constructor
  · rintro ⟨hfiles, hasks⟩
    have hnot : ¬ Asks disk stdin paths := fun h => List.cons_ne_nil _ _ (hasks h)
    refine ⟨fun h => hnot (.inl h), List.eq_nil_iff_forall_not_mem.2 fun i hi => ?_⟩
    by_cases hin : stdin = some i
    · exact hnot (.inr ⟨i, hi, hin⟩)
    · exact List.filter_eq_nil_iff.1 hfiles i hi (decide_eq_true hin)
  · rintro ⟨hpath, hnil⟩
    refine ⟨by rw [hnil]; rfl, fun h => ?_⟩
    rcases h with h | ⟨i, hi, -⟩
    · exact absurd h hpath
    · rw [hnil] at hi
      exact absurd hi List.not_mem_nil

/-- Sources are joined without loss or repetition if every path that can be opened leads to a file
with a text: there are none exactly if no path can be opened and standard input is not listed, and
else they are the text of each file that paths lead to, in the order in which it is first listed,
with a line break after it, and standard input once at the end if it is listed in any way. -/
theorem ofPaths_joined (disk : Disk ι) (stdin : Option ι) (input : Text) (paths : List Text)
    (hfiles : ∀ i ∈ readables disk paths, ∃ t, disk.contents i = .text t) :
    (ofPaths disk stdin paths = none ↔
        stdinPath ∉ paths ∧ ∀ path ∈ paths, readable? disk path = none) ∧
      ∀ s, ofPaths disk stdin paths = some s →
        s.read disk input = ((parts disk stdin input paths).flatten, none) ∧
          s.size = (parts disk stdin input paths).length := by
  have hmet := foldl_met disk stdin paths
  unfold ofPaths
  dsimp only
  generalize paths.foldl (visit disk stdin) ⟨[], ⟨[], false⟩⟩ = search at hmet ⊢
  constructor
  · rw [← parts_eq_nil_iff disk stdin input, ← List.length_eq_zero_iff, ← hmet.size]
    split
    · simp [*]
    · simp [*]
  · intro s hs
    split at hs
    · cases hs
    · cases hs
      refine ⟨?_, hmet.size input⟩
      have htexts : ∀ i ∈ search.found.files, ∃ t, disk.contents i = .text t := by
        intro i hi
        rw [hmet.files] at hi
        exact hfiles i (List.mem_filter.1 hi).1
      rw [Sources.read, filesText_eq htexts]
      dsimp only
      rw [hmet.files, parts, List.flatten_append]
      by_cases hasks : Asks disk stdin paths
      · rw [if_pos (hmet.stdin.2 hasks), if_pos hasks, List.flatten_singleton]
      · rw [if_neg fun hs => hasks (hmet.stdin.1 hs), if_neg hasks, List.flatten_nil,
          List.append_nil]

/-- Files `0` and `1`, to which a second path leads, a locked one, and standard input, which is file
`3`. -/
def shelf : Disk Nat where
  reach _ := .error []
  find? path := [(("a" : Text), 0), ("b", 1), ("link", 0), ("locked", 2), ("in", 3)].lookup path
  contents i := [.text "1", .text "2", .sealed, .text "3"][i]?.getD .sealed

/-- All that a list of sources can hold, with files listed twice and under two names. -/
def listed : List Text := ["b", "nowhere", "link", "locked", "-", "a", "in", "b"]

theorem readables_shelf : readables shelf listed = [1, 0, 3] := by decide +kernel

theorem ofPaths_joined_shelf :
    (∀ i ∈ readables shelf listed, ∃ t, shelf.contents i = .text t) ∧
      ∃ s, ofPaths shelf (some 3) listed = some s ∧
        s.read shelf "3" = (Text.ofString "2\n1\n3", none) ∧ s.size = 3 := by
  have hfiles : ∀ i ∈ readables shelf listed, ∃ t, shelf.contents i = .text t := by
    rw [readables_shelf]
    intro i hi
    simp only [List.mem_cons, List.not_mem_nil, or_false] at hi
    rcases hi with rfl | rfl | rfl
    · exact ⟨_, rfl⟩
    · exact ⟨_, rfl⟩
    · exact ⟨_, rfl⟩
  obtain ⟨hnone, hsome⟩ := ofPaths_joined shelf (some 3) "3" listed hfiles
  refine ⟨hfiles, ?_⟩
  cases hs : ofPaths shelf (some 3) listed with
  | none => exact absurd (by decide) (hnone.1 hs).1
  | some s =>
    obtain ⟨hread, hsize⟩ := hsome s hs
    refine ⟨s, rfl, hread.trans ?_, hsize.trans ?_⟩
    · decide +kernel
    · decide +kernel

end LoxLang.Sources
