import Cutscene.Proofs.Keyed.Entries
import Cutscene.Proofs.Text.Bytes
import Cutscene.Session.Vars

/-!
The names of variables, in their order.

A name that starts with a text does not stand before it (`not_lt_of_prefix`), and whatever stands between
the text and such a name starts with it, too (`prefix_of_between`). So the names with a common start are
an interval that begins where the text itself would stand, and reading them from there up to the first
other name is picking them from all names (`scan_eq_filter`). None is missed and none is read besides, and
they are in the order of their bytes (`namesFrom_interval`).

Setting variables that are there does not change the names. If each of several names is set to the same
text, that is the text of these variables, and all others have the text that they had
(`names_setEach`, `get?_setEach`).
-/
namespace Cutscene.Vars

/-! ## The interval of the names with a common start -/

theorem not_lt_of_prefix {start name : List Char} (h : start <+: name) : ¬ name < start := by
  induction start generalizing name with
  | nil => exact List.not_lt_nil name
  | cons c start ih =>
    cases name with
    | nil => cases List.prefix_nil.mp h
    | cons d name =>
      obtain ⟨rfl, hrest⟩ := List.cons_prefix_cons.mp h
      rw [List.cons_lt_cons_iff]
      rintro (hlt | ⟨-, hlt⟩)
      · exact lt_irrefl _ hlt
      · exact ih hrest hlt

/-- **What stands between a text and a name that starts with it starts with it, too.** -/
theorem prefix_of_between {start between name : List Char} (h : start <+: name)
    (hstart : ¬ between < start) (hname : ¬ name < between) : start <+: between := by
  induction start generalizing between name with
  | nil => exact List.nil_prefix
  | cons c start ih =>
    cases name with
    | nil => cases List.prefix_nil.mp h
    | cons d name =>
      obtain ⟨rfl, hrest⟩ := List.cons_prefix_cons.mp h
      cases between with
      | nil => exact absurd (List.nil_lt_cons c start) hstart
      | cons e between =>
        rw [List.cons_lt_cons_iff, not_or, not_and] at hstart hname
        obtain rfl : e = c := le_antisymm (not_lt.mp hname.1) (not_lt.mp hstart.1)
        exact List.cons_prefix_cons.mpr ⟨rfl, ih hrest (hstart.2 rfl) (hname.2 rfl)⟩

theorem startsWith_iff {start name : String} :
    startsWith start name = true ↔ start.toList <+: name.toList := List.isPrefixOf_iff_prefix

/-- Of names in order, those that are left when the ones before a text are dropped do not stand before
it. -/
theorem le_of_mem_dropWhile {names : List String} (h : names.Pairwise (· < ·)) {start name : String}
    (hname : name ∈ names.dropWhile (· < start)) : start ≤ name := by
  induction names with
  | nil => cases hname
  | cons first rest ih =>
    obtain ⟨hfirst, hrest⟩ := List.pairwise_cons.mp h
    by_cases hbefore : first < start
    · rw [List.dropWhile_cons_of_pos (by simpa using hbefore)] at hname
      exact ih hrest hname
    · rw [List.dropWhile_cons_of_neg (by simpa using hbefore)] at hname
      rcases List.mem_cons.mp hname with rfl | hlater
      · exact not_lt.mp hbefore
      · exact (not_lt.mp hbefore).trans (hfirst name hlater).le

/-- **Of names in order, those with a common start are read in one go**: from the place of the text itself
up to the first name without it. -/
theorem scan_eq_filter {names : List String} (h : names.Pairwise (· < ·)) (start : String) :
    (names.dropWhile (· < start)).takeWhile (startsWith start) = names.filter (startsWith start) := by
  induction names with
  | nil => rfl
  | cons first rest ih =>
    obtain ⟨hfirst, hrest⟩ := List.pairwise_cons.mp h
    by_cases hbefore : first < start
    · have hother : ¬ startsWith start first = true := by
        rw [startsWith_iff]
        exact fun hstarted => not_lt_of_prefix hstarted (String.lt_iff_toList_lt.mp hbefore)
      rw [List.dropWhile_cons_of_pos (by simpa using hbefore), ih hrest,
        List.filter_cons_of_neg hother]
    · -- the names from here on stand at the text or behind it
      have hbehind : ∀ name ∈ rest, ¬ name < start := fun name hname =>
        not_lt.mpr ((not_lt.mp hbefore).trans (hfirst name hname).le)
      have hdrop : rest.dropWhile (· < start) = rest := by
        apply List.dropWhile_eq_self_iff.mpr
        intro hpos
        simpa using hbehind _ (List.getElem_mem hpos)
      rw [List.dropWhile_cons_of_neg (by simpa using hbefore)]
      by_cases hstarts : startsWith start first = true
      · rw [List.takeWhile_cons_of_pos hstarts, List.filter_cons_of_pos hstarts, ← ih hrest, hdrop]
      · have hnone : ∀ name ∈ first :: rest, ¬ startsWith start name = true := by
          intro name hname hstarted
          have hle : ¬ name < first := by
            rcases List.mem_cons.mp hname with rfl | hlater
            · exact lt_irrefl _
            · exact (hfirst name hlater).not_gt
          rw [String.lt_iff_toList_lt] at hbefore hle
          exact hstarts (startsWith_iff.mpr
            (prefix_of_between (startsWith_iff.mp hstarted) hbefore hle))
        rw [List.takeWhile_cons_of_neg hstarts, List.filter_eq_nil_iff.mpr hnone]

/-! ## The names of a store -/

/-- The names of the variables that were set, in their order. -/
def names (vars : Vars) : List String := vars.entries.map Prod.fst

variable (vars : Vars)

theorem pairwise_names : vars.names.Pairwise (· < ·) := List.pairwise_map.mpr vars.ordered

theorem mem_names {name : String} : name ∈ vars.names ↔ ∃ text, vars.get? name = some text := by
  constructor
  · intro hname
    obtain ⟨⟨key, text⟩, hentry, rfl⟩ := List.mem_map.mp hname
    exact ⟨text, (Keyed.mem_iff_find? vars.ordered).mp hentry⟩
  · rintro ⟨text, hfound⟩
    exact List.mem_map.mpr ⟨(name, text), Keyed.mem_of_find? hfound, rfl⟩

theorem namesFrom_eq (start : String) : vars.namesFrom start = vars.names.filter (startsWith start) :=
  scan_eq_filter vars.pairwise_names start

theorem mem_namesFrom {start name : String} :
    name ∈ vars.namesFrom start ↔ name ∈ vars.names ∧ start.toList <+: name.toList := by
  rw [namesFrom_eq, List.mem_filter, startsWith_iff]

theorem nodup_namesFrom (start : String) : (vars.namesFrom start).Nodup := by
  have hscan : (vars.namesFrom start).Sublist vars.names :=
    (List.takeWhile_sublist _).trans (List.dropWhile_sublist _)
  exact (vars.pairwise_names.imp ne_of_lt).sublist hscan

/-- **The names with a common start are listed exactly**, each once and in the order of all names, which
is that of their bytes. They are one interval of the names: all before it stand before the text itself, and
all behind it stand behind the text and do not start with it. -/
theorem namesFrom_interval (start : String) :
    vars.namesFrom start = vars.names.filter (startsWith start) ∧
    (∀ name, name ∈ vars.namesFrom start ↔
      (∃ text, vars.get? name = some text) ∧ start.toList <+: name.toList) ∧
    ((vars.namesFrom start).Pairwise fun a b => Text.utf8 a.toList < Text.utf8 b.toList) ∧
    ∃ before behind, vars.names = before ++ (vars.namesFrom start ++ behind) ∧
      (∀ name ∈ before, name < start) ∧
      ∀ name ∈ behind, start < name ∧ ¬ start.toList <+: name.toList := by
  have hordered := vars.pairwise_names
  refine ⟨vars.namesFrom_eq start, fun name => ?_, ?_, ?_⟩
  · rw [mem_namesFrom, mem_names]
  · rw [namesFrom_eq]
    exact (hordered.filter _).imp fun hlt => Text.utf8_lt (String.lt_iff_toList_lt.mp hlt)
  · let reached := vars.names.dropWhile (· < start)
    have hsplit : vars.names =
        vars.names.takeWhile (· < start) ++ (vars.namesFrom start ++ reached.dropWhile (startsWith start)) := by
      conv_lhs => rw [← List.takeWhile_append_dropWhile (p := (· < start)) (l := vars.names)]
      congr 1
      exact List.takeWhile_append_dropWhile.symm
    refine ⟨_, _, hsplit, fun name hname => by simpa using List.mem_takeWhile_imp hname, ?_⟩
    intro name hname
    have hreached : name ∈ reached := (List.dropWhile_sublist _).subset hname
    have hother : ¬ start.toList <+: name.toList := by
      intro hstarts
      have hlisted : name ∈ vars.namesFrom start :=
        vars.mem_namesFrom.mpr ⟨(List.dropWhile_sublist _).subset hreached, hstarts⟩
      rw [hsplit] at hordered
      have hapart := (List.pairwise_append.mp (List.pairwise_append.mp hordered).2.1).2.2
      exact lt_irrefl _ (hapart name hlisted name hname)
    refine ⟨lt_of_le_of_ne (le_of_mem_dropWhile vars.pairwise_names hreached) ?_, hother⟩
    rintro rfl
    exact hother (List.prefix_refl _)

/-! ## Setting variables that are there -/

/-- Set several variables to the same text. -/
def setEach (vars : Vars) (text : String) (names : List String) : Vars :=
  names.foldl (fun vars name => vars.set name text) vars

theorem names_set {name : String} (h : name ∈ vars.names) (text : String) :
    (vars.set name text).names = vars.names := Keyed.map_fst_insert vars.ordered h text

theorem names_setEach (text : String) {names : List String} (h : ∀ name ∈ names, name ∈ vars.names) :
    (vars.setEach text names).names = vars.names := by
  induction names generalizing vars with
  | nil => rfl
  | cons first rest ih =>
    have hset : (vars.set first text).names = vars.names := vars.names_set (h first (by simp)) text
    have hrest := ih (vars.set first text) fun name hname => by
      rw [hset]
      exact h name (by simp [hname])
    exact hrest.trans hset

/-- A variable has the text that it was set to, and one that was not set has its own. -/
theorem get?_setEach (text : String) (names : List String) (name : String) :
    (vars.setEach text names).get? name = if name ∈ names then some text else vars.get? name := by
  induction names generalizing vars with
  | nil => simp [setEach]
  | cons first rest ih =>
    have hrest : (vars.setEach text (first :: rest)).get? name =
        if name ∈ rest then some text else (vars.set first text).get? name := ih _
    have hfirst : (vars.set first text).get? name =
        if name = first then some text else vars.get? name := by
      by_cases hname : name = first
      · rw [if_pos hname, hname]
        exact Keyed.find?_insert_self first text vars.entries
      · rw [if_neg hname]
        exact Keyed.find?_insert_of_ne hname text vars.entries
    rw [hrest, hfirst]
    by_cases hlater : name ∈ rest <;> simp [hlater]

end Cutscene.Vars
