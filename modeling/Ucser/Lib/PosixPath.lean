import Mathlib.Data.List.Infix
import Mathlib.Tactic.Common

/-!
# Paths: `os.path.abspath` on a POSIX system

A path is a text whose components are separated by slashes.  Normalisation is lexical: it
never looks at a file system.

* `components` — what stands between the slashes.
* `normpath`, `join`, `abspath` — the functions of `posixpath`.
* `Absolute` — a normalised absolute path: its slashes in front and its components, none of
  which is empty, `.` or `..`.
* `abspath_eq_path` — **what `abspath` returns is one**.
* `Within` — containment component by component.
* `Absolute.within_iff_of_append` — **when a prefix of the text is a prefix of the
  components**: at a slash, at the end, or when there are no components.
-/

namespace Ucser
namespace PosixPath

/-! ## The functions of `posixpath` -/

/-- The components of a path, the empty ones left out. -/
def components (path : List Char) : List (List Char) :=
  (path.splitOn '/').filter (fun comp => comp ≠ [])

/-- How many slashes stand in front; POSIX allows one or two, and three or more count as
one. -/
def initialSlashes : List Char → Nat
  | '/' :: '/' :: '/' :: _ => 1
  | '/' :: '/' :: _ => 2
  | '/' :: _ => 1
  | _ => 0

/-- One round of the loop of `normpath` over the components. -/
def pushComponent (absolute : Bool) (comps : List (List Char)) (comp : List Char) :
    List (List Char) :=
  if comp = [] ∨ comp = ['.'] then comps
  else if comp ≠ ['.', '.'] ∨ (absolute = false ∧ comps = []) ∨
      comps.getLast? = some ['.', '.'] then comps ++ [comp]
  else comps.dropLast

/-- The path with these slashes and components. -/
def render (slashes : Nat) (comps : List (List Char)) : List Char :=
  List.replicate slashes '/' ++ ['/'].intercalate comps

/-- `normpath(path)`. -/
def normpath (path : List Char) : List Char :=
  if path = [] then ['.']
  else
    let slashes := initialSlashes path
    let comps := (path.splitOn '/').foldl (pushComponent (slashes ≠ 0)) []
    if render slashes comps = [] then ['.'] else render slashes comps

/-- `join(cwd, path)`. -/
def join (cwd path : List Char) : List Char :=
  if path.head? = some '/' then path
  else if cwd = [] ∨ cwd.getLast? = some '/' then cwd ++ path
  else cwd ++ '/' :: path

/-- `abspath(path)`, in a working directory. -/
def abspath (cwd path : List Char) : List Char :=
  if path.head? = some '/' then normpath path else normpath (join cwd path)

/-! ## Components -/

theorem not_mem_of_mem_splitOn {text : List Char} :
    ∀ comp ∈ text.splitOn '/', '/' ∉ comp := by
  induction text with
  | nil => simp
  | cons c text ih =>
      rw [List.splitOn_cons_eq_if_modifyHead]
      intro comp hcomp
      by_cases hc : c = '/'
      · rw [if_pos (by simpa using hc)] at hcomp
        rcases List.mem_cons.mp hcomp with rfl | hcomp
        · simp
        · exact ih comp hcomp
      · rw [if_neg (by simpa using hc)] at hcomp
        cases hsplit : text.splitOn '/' with
        | nil => exact absurd hsplit (List.splitOn_ne_nil '/' text)
        | cons first rest =>
            rw [hsplit] at hcomp ih
            rcases List.mem_cons.mp hcomp with rfl | hcomp
            · intro hmem
              rcases List.mem_cons.mp hmem with heq | hmem
              · exact hc heq.symm
              · exact ih first List.mem_cons_self hmem
            · exact ih comp (List.mem_cons_of_mem _ hcomp)

/-- A slash separates the components of what it stands between. -/
theorem components_append_slash (path rest : List Char) :
    components (path ++ '/' :: rest) = components path ++ components rest := by
  rw [components, List.splitOn_append_cons_self, List.filter_append]
  rfl

theorem components_nil : components [] = [] := rfl

theorem components_replicate_append (n : Nat) (path : List Char) :
    components (List.replicate n '/' ++ path) = components path := by
  induction n with
  | zero => rfl
  | succ n ih =>
      have hslash := components_append_slash [] (List.replicate n '/' ++ path)
      rw [components_nil, List.nil_append, List.nil_append, ih] at hslash
      exact hslash

/-- A component that `normpath` keeps in an absolute path. -/
def Clean (comp : List Char) : Prop :=
  comp ≠ [] ∧ comp ≠ ['.'] ∧ comp ≠ ['.', '.'] ∧ '/' ∉ comp

/-- The components of a list of them. -/
theorem components_intercalate {comps : List (List Char)} (h : ∀ comp ∈ comps, Clean comp) :
    components (['/'].intercalate comps) = comps := by
  by_cases hnil : comps = []
  · subst hnil
    rfl
  · rw [components, List.splitOn_intercalate '/' (fun comp hcomp => (h comp hcomp).2.2.2) hnil]
    apply List.filter_eq_self.mpr
    intro comp hcomp
    simpa using (h comp hcomp).1

/-! ## Normalised absolute paths -/

/-- A normalised absolute path. -/
structure Absolute where
  slashes : Nat
  comps : List (List Char)
  slashes_one_or_two : slashes = 1 ∨ slashes = 2
  clean : ∀ comp ∈ comps, Clean comp

/-- The text of the path. -/
def Absolute.path (a : Absolute) : List Char := render a.slashes a.comps

theorem Absolute.components_path (a : Absolute) : components a.path = a.comps := by
  rw [Absolute.path, render, components_replicate_append, components_intercalate a.clean]

/-- One round of the loop keeps the components clean. -/
theorem clean_pushComponent {comps : List (List Char)} {comp : List Char}
    (h : ∀ c ∈ comps, Clean c) (hcomp : '/' ∉ comp) :
    ∀ c ∈ pushComponent true comps comp, Clean c := by
  intro c hc
  unfold pushComponent at hc
  split_ifs at hc with hskip hkeep
  · exact h c hc
  · rcases List.mem_append.mp hc with hc | hc
    · exact h c hc
    · rw [List.mem_singleton] at hc
      subst hc
      refine ⟨fun hnil => hskip (Or.inl hnil), fun hdot => hskip (Or.inr hdot), ?_, hcomp⟩
      -- in an absolute path `..` is never kept: what it would be kept behind is no `..`
      rcases hkeep with hkeep | ⟨habs, _⟩ | hlast
      · exact hkeep
      · exact absurd habs (by simp)
      · exact absurd rfl (h _ (List.mem_of_getLast? hlast)).2.2.1
  · exact h c (List.mem_of_mem_dropLast hc)

/-- The whole loop. -/
theorem clean_foldl {raw : List (List Char)} (hraw : ∀ comp ∈ raw, '/' ∉ comp)
    {comps : List (List Char)} (h : ∀ c ∈ comps, Clean c) :
    ∀ c ∈ raw.foldl (pushComponent true) comps, Clean c := by
  induction raw generalizing comps with
  | nil => exact h
  | cons comp raw ih =>
      obtain ⟨hcomp, hrest⟩ := List.forall_mem_cons.mp hraw
      exact ih hrest (clean_pushComponent h hcomp)

theorem initialSlashes_of_absolute {path : List Char} (h : path.head? = some '/') :
    initialSlashes path = 1 ∨ initialSlashes path = 2 := by
  unfold initialSlashes
  split
  · exact Or.inl rfl
  · exact Or.inr rfl
  · exact Or.inl rfl
  · rename_i hother
    cases path with
    | nil => simp at h
    | cons c path =>
        obtain rfl : c = '/' := by simpa using h
        exact absurd rfl (hother path)

/-- `normpath` of an absolute path. -/
theorem normpath_eq_path {path : List Char} (h : path.head? = some '/') :
    ∃ a : Absolute, normpath path = a.path := by
  have hslashes := initialSlashes_of_absolute h
  have habs : decide (initialSlashes path ≠ 0) = true := by
    rw [decide_eq_true_eq]
    omega
  have hclean : ∀ c ∈ (path.splitOn '/').foldl (pushComponent true) [], Clean c :=
    clean_foldl not_mem_of_mem_splitOn (by simp)
  refine ⟨⟨initialSlashes path, _, hslashes, hclean⟩, ?_⟩
  have hne : path ≠ [] := by
    rintro rfl
    simp at h
  unfold normpath
  rw [if_neg hne]
  dsimp only
  rw [habs, if_neg]
  · rfl
  · rcases hslashes with hone | htwo
    · rw [hone]
      simp [render]
    · rw [htwo]
      simp [render]

/-- A working directory is an absolute path. -/
theorem head?_join {cwd : List Char} (hcwd : cwd.head? = some '/') (path : List Char) :
    (join cwd path).head? = some '/' := by
  have hne : cwd ≠ [] := by
    rintro rfl
    simp at hcwd
  unfold join
  split_ifs with hpath hsep
  · exact hpath
  · rw [List.head?_append_of_ne_nil _ hne, hcwd]
  · rw [List.head?_append_of_ne_nil _ hne, hcwd]

/-- **What `abspath` returns is a normalised absolute path.** -/
theorem abspath_eq_path {cwd : List Char} (hcwd : cwd.head? = some '/') (path : List Char) :
    ∃ a : Absolute, abspath cwd path = a.path := by
  unfold abspath
  split_ifs with hpath
  · exact normpath_eq_path hpath
  · exact normpath_eq_path (head?_join hcwd path)

/-! ## Containment -/

/-- The path is the directory, or lies in it: its components begin with those of the
directory.  Whether one or two slashes stand in front makes no difference. -/
def Within (base path : List Char) : Prop := components base <+: components path

instance (base path : List Char) : Decidable (Within base path) :=
  inferInstanceAs (Decidable (_ <+: _))

theorem intercalate_append {first rest : List (List Char)} (hfirst : first ≠ [])
    (hrest : rest ≠ []) :
    ['/'].intercalate (first ++ rest) =
      ['/'].intercalate first ++ '/' :: ['/'].intercalate rest := by
  induction first with
  | nil => exact absurd rfl hfirst
  | cons comp first ih =>
      cases first with
      | nil =>
          rw [List.singleton_append, List.intercalate_cons_of_ne_nil hrest,
            List.intercalate_singleton]
          simp
      | cons comp' first =>
          have hne : comp' :: first ++ rest ≠ [] := by simp
          rw [List.cons_append, List.intercalate_cons_of_ne_nil hne, ih (by simp),
            List.intercalate_cons_of_ne_nil (List.cons_ne_nil comp' first)]
          simp

/-- Slashes in front of something else can be cancelled. -/
theorem slashes_cancel {m n : Nat} {c d : Char} {l l' : List Char} (hc : c ≠ '/') (hd : d ≠ '/')
    (h : List.replicate m '/' ++ c :: l = List.replicate n '/' ++ d :: l') :
    c :: l = d :: l' := by
  induction m generalizing n with
  | zero =>
      cases n with
      | zero => exact h
      | succ n => exact absurd (List.cons.inj h).1 hc
  | succ m ih =>
      cases n with
      | zero => exact absurd (List.cons.inj h).1.symm hd
      | succ n => exact ih (List.cons.inj h).2

/-- The text of a path with a component has something else behind its slashes. -/
theorem Absolute.exists_path_cons (a : Absolute) (h : a.comps ≠ []) :
    ∃ c rest, ['/'].intercalate a.comps = c :: rest ∧ c ≠ '/' := by
  obtain ⟨comp, comps, hcomps⟩ := List.exists_cons_of_ne_nil h
  obtain ⟨hne, _, _, hslash⟩ := a.clean comp (by rw [hcomps]; exact List.mem_cons_self)
  obtain ⟨c, comp', hcomp⟩ := List.exists_cons_of_ne_nil hne
  have hc : c ≠ '/' := by
    rintro rfl
    exact hslash (by rw [hcomp]; exact List.mem_cons_self)
  rw [hcomps, hcomp]
  cases comps with
  | nil => exact ⟨c, comp', List.intercalate_singleton, hc⟩
  | cons next comps =>
      refine ⟨c, comp' ++ ['/'] ++ ['/'].intercalate (next :: comps), ?_, hc⟩
      rw [List.intercalate_cons_of_ne_nil (List.cons_ne_nil next comps)]
      simp

/-- **When a prefix of the text is a prefix of the components.** -/
theorem Absolute.within_iff_of_append {a b : Absolute} {rest : List Char}
    (h : b.path = a.path ++ rest) :
    Within a.path b.path ↔ a.comps = [] ∨ rest = [] ∨ rest.head? = some '/' := by
  rw [Within, a.components_path, b.components_path]
  constructor
  · rintro ⟨more, hmore⟩
    by_cases hnil : a.comps = []
    · exact Or.inl hnil
    · have hbnil : b.comps ≠ [] := by
        rw [← hmore]
        exact List.append_ne_nil_of_left_ne_nil hnil more
      obtain ⟨c, texta, ha, hc⟩ := a.exists_path_cons hnil
      obtain ⟨d, textb, hb, hd⟩ := b.exists_path_cons hbnil
      -- the slashes in front are as many, so the rest of the texts can be compared
      have htext : ['/'].intercalate b.comps = ['/'].intercalate a.comps ++ rest := by
        rw [Absolute.path, Absolute.path, render, render, hb, ha] at h
        rw [hb, ha]
        rw [List.append_assoc] at h
        exact slashes_cancel hd hc h
      rw [← hmore] at htext
      by_cases hmorenil : more = []
      · subst hmorenil
        rw [List.append_nil] at htext
        exact Or.inr (Or.inl (List.self_eq_append_right.mp htext))
      · rw [intercalate_append hnil hmorenil] at htext
        rw [← List.append_cancel_left htext]
        exact Or.inr (Or.inr rfl)
  · rintro (hnil | hnil | hslash)
    · rw [hnil]
      exact List.nil_prefix
    · rw [hnil, List.append_nil] at h
      rw [← a.components_path, ← b.components_path, h]
    · obtain ⟨tail, rfl⟩ : ∃ tail, rest = '/' :: tail := by
        cases rest with
        | nil => simp at hslash
        | cons c tail => exact ⟨tail, by rw [show c = '/' by simpa using hslash]⟩
      have hcomponents := congrArg components h
      rw [components_append_slash, a.components_path, b.components_path] at hcomponents
      rw [hcomponents]
      exact List.prefix_append _ _

end PosixPath
end Ucser
