import Twisty.Command.Run
import Twisty.Proofs.Settings.Written

/-!
# Schemes in layers

A layer of settings names a default scheme, gives schemes, or says something else (`Setting`). Laid
over settings, a scheme takes the place of the one of exactly its name or comes last (`lay`), and
the tree of the settings keeps up with that (`Holds.assignAll`). So the settings of a file and of an
environment can be told from what they say (`load?_layered`).

A scheme is looked for by its name in any case, and the first one counts. One that is laid over
others is found unless one of the others has its name in other letters (`findScheme_putScheme`), and
if no two of the new schemes have the same name, this goes for all of them (`findScheme_layered`).
`colors_of_file` says what this makes of the built-in schemes : those of a file are found except for
the ones that are named like a built-in one in other letters.
-/

namespace Twisty.Settings

/-! ## Looking for a scheme -/

@[simp] theorem sameName_iff {s t : String} : sameName s t = true ↔ s.toLower = t.toLower := by
  simp [sameName]

/-- The first of some schemes of a name. -/
def findScheme (name : String) (ss : List Scheme) : Option Scheme :=
  ss.find? fun t => sameName t.name name

/-- Schemes with one more, in the place of the one of exactly its name or at the end. -/
def putScheme (t : Scheme) : List Scheme → List Scheme
  | [] => [t]
  | s :: ss => if s.name = t.name then t :: ss else s :: putScheme t ss

/-- No two schemes have the same name in any letters. -/
def DifferentNames (ss : List Scheme) : Prop :=
  ss.Pairwise fun t u => sameName t.name u.name = false

instance (ss : List Scheme) : Decidable (DifferentNames ss) :=
  inferInstanceAs (Decidable (ss.Pairwise _))

/-- Schemes laid over others. -/
def layered (olds news : List Scheme) : List Scheme :=
  news.foldl (fun ss t => putScheme t ss) olds

/-- The one of two schemes that is found, if the first is there and the second is laid over it. -/
def foundOf (old : Option Scheme) (t : Scheme) : Scheme :=
  match old with
  | some s => if s.name = t.name then t else s
  | none => t

variable {t : Scheme} {olds news : List Scheme} {name : String}

/-- Putting a scheme of another name does not change which one is found. -/
theorem findScheme_putScheme_of_other (h : sameName t.name name = false) (ss : List Scheme) :
    findScheme name (putScheme t ss) = findScheme name ss := by
  induction ss with
  | nil => simp [putScheme, findScheme, h]
  | cons s ss ih =>
    by_cases hs : s.name = t.name
    · simp [putScheme, findScheme, hs, h]
    · rw [putScheme, if_neg hs]
      simp only [findScheme, List.find?_cons] at ih ⊢
      rw [ih]

/-- A new scheme is found unless an old one has its name in other letters. -/
theorem findScheme_putScheme (h : sameName t.name name = true) (ss : List Scheme) :
    findScheme name (putScheme t ss) = some (foundOf (findScheme name ss) t) := by
  induction ss with
  | nil => simp [putScheme, findScheme, h, foundOf]
  | cons s ss ih =>
    by_cases hs : s.name = t.name
    · simp [putScheme, findScheme, hs, h, foundOf]
    · rw [putScheme, if_neg hs]
      simp only [findScheme, List.find?_cons] at ih ⊢
      rw [ih]
      cases sameName s.name name <;> simp [foundOf, hs]

/-- Laying schemes of other names over the old ones does not change which one is found. -/
theorem findScheme_layered_of_other (h : ∀ t ∈ news, sameName t.name name = false) :
    findScheme name (layered olds news) = findScheme name olds := by
  induction news generalizing olds with
  | nil => rfl
  | cons t news ih =>
    refine (ih fun u hu => h u (List.mem_cons_of_mem t hu)).trans ?_
    exact findScheme_putScheme_of_other (h t (by simp)) olds

/-- Of new schemes with different names, each is found unless an old one has its name in other
letters. -/
theorem findScheme_layered (hnames : DifferentNames news) (ht : t ∈ news) :
    findScheme t.name (layered olds news) = some (foundOf (findScheme t.name olds) t) := by
  obtain ⟨before, after, rfl⟩ := List.append_of_mem ht
  rw [DifferentNames, List.pairwise_append, List.pairwise_cons] at hnames
  obtain ⟨-, ⟨hafter, -⟩, hbefore⟩ := hnames
  have hbefore : ∀ u ∈ before, sameName u.name t.name = false := fun u hu =>
    hbefore u hu t (by simp)
  have hafter : ∀ u ∈ after, sameName u.name t.name = false := fun u hu => by
    have hne := hafter u hu
    rw [← Bool.not_eq_true, sameName_iff] at hne ⊢
    exact fun h => hne h.symm
  rw [layered, List.foldl_append, List.foldl_cons]
  refine (findScheme_layered_of_other hafter).trans ?_
  rw [findScheme_putScheme (sameName_iff.2 rfl)]
  exact congrArg (fun old => some (foundOf old t)) (findScheme_layered_of_other hbefore)

/-! ## What a layer says -/

/-- A name leads neither to the default scheme nor to the schemes. -/
def LeadsElsewhere (name : String) : Prop :=
  ∃ first path, Path.ofName name = .entry first :: path ∧ first ≠ "default_scheme" ∧
    first ≠ "schemes"

/-- What a layer of settings says. -/
inductive Setting
  | defaultScheme (name : String)
  | schemes (ss : List Scheme)
  | other (name : String) (h : LeadsElsewhere name) (v : Value)

namespace Setting

/-- What a layer says, as an entry. -/
def entry : Setting → String × Value
  | defaultScheme name => ("default_scheme", .text name)
  | schemes ss => ("schemes", .table (ss.map schemeEntry))
  | other name _ v => (name, v)

/-- The schemes that a layer gives. -/
def given : Setting → List Scheme
  | schemes ss => ss
  | _ => []

end Setting

/-- Settings with a layer over them. -/
def lay (s : Settings) : Setting → Settings
  | .defaultScheme name => { s with defaultScheme := name }
  | .schemes ss => { s with schemes := layered s.schemes ss }
  | .other _ _ _ => s

theorem schemes_lay (s : Settings) (x : Setting) :
    (s.lay x).schemes = layered s.schemes x.given := by
  cases x <;> rfl

/-- Layers one after another lay all their schemes over the first. -/
theorem schemes_foldl_lay (s : Settings) (layer : List Setting) :
    (layer.foldl lay s).schemes = layered s.schemes (layer.flatMap Setting.given) := by
  induction layer generalizing s with
  | nil => rfl
  | cons x layer ih =>
    rw [List.foldl_cons, ih, schemes_lay, List.flatMap_cons, layered, layered, layered,
      List.foldl_append]

/-! ## Trees -/

/-- Putting a scheme is putting its entry. -/
theorem entries_putScheme (t : Scheme) (ss : List Scheme) :
    (putScheme t ss).map schemeEntry =
      putEntry t.name (.list (t.colors.map .text)) (ss.map schemeEntry) := by
  induction ss with
  | nil => rfl
  | cons s ss ih =>
    by_cases hs : s.name = t.name
    · simp [putScheme, putEntry, schemeEntry, hs]
    · simp [putScheme, putEntry, schemeEntry, hs, ih]

/-- Laying the entries of schemes over others is laying the schemes over them. -/
theorem overlayEntries_schemes (olds news : List Scheme) :
    Value.overlayEntries (olds.map schemeEntry) (news.map schemeEntry) =
      (layered olds news).map schemeEntry := by
  induction news generalizing olds with
  | nil => simp [Value.overlayEntries, layered]
  | cons t news ih =>
    rw [List.map_cons, schemeEntry, Value.overlayEntries, Value.overlay_list, ← entries_putScheme,
      ih]
    rfl

/-- The entry of a name after a value was laid over what is at a path. -/
theorem entry_assign (new : Value) (first other : String) (path : Path) (v : Value) :
    (new.assign (.entry first :: path) v).entry other =
      if first = other then new.assign path (v.entry first) else v.entry other := by
  rw [Value.assign, Value.entry, Value.entries, valueOf?_putEntry]
  split_ifs <;> rfl

/-- The entries of a tree are those of settings, whatever else there is. -/
structure Holds (v : Value) (s : Settings) : Prop where
  defaultScheme_eq : v.entry "default_scheme" = .text s.defaultScheme
  schemes_eq : v.entry "schemes" = .table (s.schemes.map schemeEntry)

theorem holds_value (s : Settings) : Holds s.value s :=
  ⟨rfl, rfl⟩

/-- Settings are read back from a value that holds them. -/
theorem Holds.ofValue?_eq {v : Value} {s : Settings} (h : Holds v s) : ofValue? v = some s := by
  have hschemes : schemesOfValue? (.table (s.schemes.map schemeEntry)) = some s.schemes :=
    mapM_schemeOfEntry? s.schemes
  rw [ofValue?, h.defaultScheme_eq, h.schemes_eq, hschemes]
  rfl

/-- Assigning the entry of a setting is laying that setting. -/
theorem Holds.assign {v : Value} {s : Settings} (h : Holds v s) (x : Setting) :
    Holds (x.entry.2.assign (Path.ofName x.entry.1) v) (s.lay x) := by
  cases x with
  | defaultScheme name =>
    have hpath : Path.ofName "default_scheme" = [.entry "default_scheme"] := by decide
    rw [Setting.entry, hpath]
    constructor
    · rw [entry_assign]
      simp [Value.assign, lay]
    · rw [entry_assign]
      simpa [lay] using h.schemes_eq
  | schemes ss =>
    have hpath : Path.ofName "schemes" = [.entry "schemes"] := by decide
    rw [Setting.entry, hpath]
    constructor
    · rw [entry_assign]
      simpa [lay] using h.defaultScheme_eq
    · rw [entry_assign]
      simp [Value.assign, Value.overlay, h.schemes_eq, Value.entries, overlayEntries_schemes, lay]
  | other name hother new =>
    obtain ⟨first, path, hpath, hdefault, hschemes⟩ := hother
    change Holds (new.assign (Path.ofName name) v) s
    rw [hpath]
    constructor
    · rw [entry_assign, if_neg hdefault]
      exact h.defaultScheme_eq
    · rw [entry_assign, if_neg hschemes]
      exact h.schemes_eq

/-- Assigning the entries of a layer is laying its settings one after another. -/
theorem Holds.assignAll {v : Value} {s : Settings} (h : Holds v s) (layer : List Setting) :
    Holds (assignAll v (layer.map Setting.entry)) (layer.foldl lay s) := by
  induction layer generalizing v s with
  | nil => exact h
  | cons x layer ih => exact ih (h.assign x)

/-! ## Loading -/

variable {vars text : String} {env : List (String × String)} {file : List Setting}

/-- Environment variables name a default scheme or lead elsewhere. -/
def KeepSchemes (vars : String) (env : List (String × String)) : Prop :=
  ∀ e ∈ ofVariables vars env, e.1 = "default_scheme" ∨ LeadsElsewhere e.1

theorem mem_putEntry {α : Type} {name : String} {a : α} {es : List (String × α)} {e : String × α}
    (h : e ∈ putEntry name a es) : e = (name, a) ∨ e ∈ es := by
  induction es with
  | nil => exact .inl (List.mem_singleton.1 h)
  | cons d es ih =>
    rw [putEntry] at h
    split_ifs at h with hd
    · exact (List.mem_cons.1 h).imp_right (List.mem_cons_of_mem d)
    · rcases List.mem_cons.1 h with rfl | h
      · exact .inr (by simp)
      · exact (ih h).imp_right (List.mem_cons_of_mem d)

theorem mem_ofEntries {α : Type} {es : List (String × α)} {e : String × α} (h : e ∈ ofEntries es) :
    e ∈ es := by
  have key : ∀ (es acc : List (String × α)), e ∈ es.foldl (fun acc d => putEntry d.1 d.2 acc) acc →
      e ∈ acc ∨ e ∈ es := by
    intro es
    induction es with
    | nil => exact fun acc h => .inl h
    | cons d es ih =>
      intro acc h
      rcases ih _ h with hmem | hmem
      · rcases mem_putEntry hmem with rfl | hmem
        · exact .inr (by simp)
        · exact .inl hmem
      · exact .inr (List.mem_cons_of_mem d hmem)
  exact (key es [] h).resolve_left (List.not_mem_nil)

theorem exists_text_of_variable {e : String × Value} (h : e ∈ ofVariables vars env) :
    ∃ s, e.2 = .text s := by
  obtain ⟨d, -, hd⟩ := List.mem_filterMap.1 (mem_ofEntries h)
  obtain ⟨name, -, rfl⟩ := Option.map_eq_some_iff.1 hd
  exact ⟨d.2, rfl⟩

/-- The environment is a layer that gives no schemes. -/
theorem exists_layer_of_variables (h : KeepSchemes vars env) :
    ∃ layer : List Setting, ofVariables vars env = layer.map Setting.entry ∧
      layer.flatMap Setting.given = [] := by
  have hone : ∀ e ∈ ofVariables vars env, ∃ x : Setting, e = x.entry ∧ x.given = [] := by
    intro e he
    obtain ⟨s, hs⟩ := exists_text_of_variable he
    rcases h e he with hname | hname
    · exact ⟨.defaultScheme s, Prod.ext hname hs, rfl⟩
    · exact ⟨.other e.1 hname e.2, rfl, rfl⟩
  generalize ofVariables vars env = es at hone
  induction es with
  | nil => exact ⟨[], rfl, rfl⟩
  | cons e es ih =>
    obtain ⟨x, rfl, hx⟩ := hone e (by simp)
    obtain ⟨layer, rfl, hlayer⟩ := ih fun d hd => hone d (List.mem_cons_of_mem _ hd)
    exact ⟨x :: layer, rfl, by rw [List.flatMap_cons, hx, hlayer]; rfl⟩

/-- The entries of the built-in settings make their tree. -/
theorem assignAll_builtin : assignAll (.table []) builtin.value.entries = builtin.value := by
  have hdefault : Path.ofName "default_scheme" = [.entry "default_scheme"] := by decide
  have hschemes : Path.ofName "schemes" = [.entry "schemes"] := by decide
  have hlayered : Value.overlayEntries [] (builtin.schemes.map schemeEntry) =
      builtin.schemes.map schemeEntry := overlayEntries_schemes [] builtin.schemes
  simp [assignAll, value, hdefault, hschemes, Value.assign, Value.entry, Value.entries, putEntry,
    valueOf?, Value.overlay, hlayered]

/-- The built-in text is read as the built-in settings, and the other layers are laid over them. -/
theorem load?_eq (vars : String) (env : List (String × String)) {entries : List (String × Value)}
    (hfile : readFile? text = some entries) : load? vars (some text) env =
      ofValue? (assignAll (assignAll builtin.value entries) (ofVariables vars env)) := by
  simp only [load?, readFile?_written written_builtin, hfile, Option.bind_eq_bind, Option.bind_some,
    List.foldl_cons, List.foldl_nil, assignAll_builtin]

/-- With no file and no variables the settings are the built-in ones. -/
theorem load?_builtin (vars : String) : load? vars none [] = some builtin := by
  simp only [load?, readFile?_written written_builtin, Option.bind_eq_bind, Option.bind_some,
    List.foldl_cons, List.foldl_nil, assignAll_builtin]
  exact (holds_value builtin).ofValue?_eq

/-- A settings file that is read is loaded, and its schemes are laid over the built-in ones. -/
theorem load?_layered (hfile : readFile? text = some (file.map Setting.entry))
    (henv : KeepSchemes vars env) :
    ∃ s, load? vars (some text) env = some s ∧
      s.schemes = layered builtin.schemes (file.flatMap Setting.given) := by
  obtain ⟨layer, hlayer, hgiven⟩ := exists_layer_of_variables henv
  have hholds := ((holds_value builtin).assignAll file).assignAll layer
  refine ⟨layer.foldl lay (file.foldl lay builtin), ?_, ?_⟩
  · rw [load?_eq vars env hfile, hlayer]
    exact hholds.ofValue?_eq
  · rw [schemes_foldl_lay, hgiven, schemes_foldl_lay]
    rfl

/-! ## Schemes of a file -/

theorem colors_eq_ok {s : Settings} {t : Scheme} (h : findScheme name s.schemes = some t) :
    Command.colors s (some name) = .ok t.colors := by
  have hscheme : s.scheme? name = some t := h
  simp [Command.colors, hscheme]

/-- Of schemes with different names, the one of a name is found. -/
theorem findScheme_eq_some (hnames : DifferentNames olds) {s : Scheme} (hs : s ∈ olds)
    (hname : sameName s.name name = true) : findScheme name olds = some s := by
  obtain ⟨before, after, rfl⟩ := List.append_of_mem hs
  have hbefore : before.find? (fun u => sameName u.name name) = none := by
    refine List.find?_eq_none.2 fun u hu hfound => ?_
    have hne := (List.pairwise_append.1 hnames).2.2 u hu s (by simp)
    rw [← Bool.not_eq_true, sameName_iff] at hne
    exact hne ((sameName_iff.1 hfound).trans (sameName_iff.1 hname).symm)
  rw [findScheme, List.find?_append, hbefore, Option.none_or, List.find?_cons, hname]

/-- A scheme is hidden by an older one whose name differs from its own only in case. -/
theorem foundOf_hidden (hnames : DifferentNames olds) {s : Scheme} (hs : s ∈ olds)
    (hname : sameName s.name t.name = true) (hne : s.name ≠ t.name) :
    foundOf (findScheme t.name olds) t = s := by
  rw [findScheme_eq_some hnames hs hname, foundOf, if_neg hne]

theorem foundOf_eq_self (h : ∀ s ∈ olds, sameName s.name t.name = true → s.name = t.name) :
    foundOf (findScheme t.name olds) t = t := by
  cases hfind : findScheme t.name olds with
  | none => rfl
  | some s =>
    obtain ⟨hsame, hs⟩ := List.find?_eq_some_iff_append.1 hfind
    exact if_pos (h s (List.mem_of_find?_eq_some hfind) hsame)

/-- The names of the built-in schemes differ in more than case. -/
theorem differentNames_builtin : DifferentNames builtin.schemes := by
  decide +kernel

variable {s : Settings}

/-- The colors of a scheme that was laid over the built-in ones are its own, or those of a built-in
scheme that hides it. -/
theorem colors_of_layered (hschemes : s.schemes = layered builtin.schemes news)
    (hnames : DifferentNames news) (ht : t ∈ news) :
    Command.colors s (some t.name) =
      .ok (foundOf (findScheme t.name builtin.schemes) t).colors := by
  refine colors_eq_ok ?_
  rw [hschemes]
  exact findScheme_layered hnames ht

/-- A new scheme whose name a built-in one has in other letters is not found. -/
theorem colors_of_hidden (hschemes : s.schemes = layered builtin.schemes news)
    (hnames : DifferentNames news) (ht : t ∈ news) {b : Scheme} (hb : b ∈ builtin.schemes)
    (hsame : sameName b.name t.name = true) (hne : b.name ≠ t.name) :
    Command.colors s (some t.name) = .ok b.colors := by
  rw [colors_of_layered hschemes hnames ht, foundOf_hidden differentNames_builtin hb hsame hne]

/-- A settings file is loaded if it is written well. Of its schemes, which must not have the same
name in any letters, one is found by its name unless a built-in scheme with other colors has that
name in other letters, and then the built-in one is found. A built-in scheme whose name the file
does not use in any letters is found as it was.

The name of a scheme is what its word in the file means (`Scalar.name?`). A word that stands between
quotes means itself, but a bare `007` is the name `7`. -/
theorem colors_of_file (hfile : Written (file.map Setting.entry) text) (henv : KeepSchemes vars env)
    (hnames : DifferentNames (file.flatMap Setting.given)) :
    ∃ s, load? vars (some text) env = some s ∧
      (∀ t ∈ file.flatMap Setting.given, Command.colors s (some t.name) = .ok t.colors ↔
        ∀ b ∈ builtin.schemes, sameName b.name t.name = true →
          b.name = t.name ∨ b.colors = t.colors) ∧
      (∀ t ∈ file.flatMap Setting.given, ∀ b ∈ builtin.schemes, sameName b.name t.name = true →
        b.name ≠ t.name → Command.colors s (some t.name) = .ok b.colors) ∧
      ∀ b ∈ builtin.schemes, (∀ t ∈ file.flatMap Setting.given, sameName t.name b.name = false) →
        Command.colors s (some b.name) = .ok b.colors := by
  obtain ⟨s, hload, hschemes⟩ := load?_layered (readFile?_written hfile) henv
  refine ⟨s, hload, fun t ht => ⟨fun h b hb hsame => ?_, fun h => ?_⟩,
    fun t ht b hb => colors_of_hidden hschemes hnames ht hb, fun b hb hother => ?_⟩
  · by_cases hne : b.name = t.name
    · exact .inl hne
    · have hhidden := colors_of_hidden hschemes hnames ht hb hsame hne
      exact .inr (Except.ok.inj (hhidden.symm.trans h))
  · by_cases hother : ∀ b ∈ builtin.schemes, sameName b.name t.name = true → b.name = t.name
    · rw [colors_of_layered hschemes hnames ht, foundOf_eq_self hother]
    · push Not at hother
      obtain ⟨b, hb, hsame, hne⟩ := hother
      have hhidden := colors_of_hidden hschemes hnames ht hb hsame hne
      rw [hhidden, (h b hb hsame).resolve_left hne]
  · refine colors_eq_ok ?_
    rw [hschemes, findScheme_layered_of_other hother]
    exact findScheme_eq_some differentNames_builtin hb (sameName_iff.2 rfl)

theorem colors_of_file_neon :
    ∃ s, load? "CUBEVIZ"
        (some "default_scheme: neon\nschemes:\n  neon: [red, 'sky blue']\n  western: [a,b] # two\n")
        [("CUBEVIZ_DEFAULT_SCHEME", "japanese")] = some s ∧
      Command.colors s (some "neon") = .ok ["red", "sky blue"] ∧
      Command.colors s (some "western") = .ok ["a", "b"] ∧
      Command.colors s (some "japanese") =
        .ok ["white", "green", "red", "blue", "yellow", "orange"] := by
  have henv : KeepSchemes "CUBEVIZ" [("CUBEVIZ_DEFAULT_SCHEME", "japanese")] := fun e he =>
    .inl (congrArg Prod.fst (List.mem_singleton.1 he))
  have hfile : Written ([.defaultScheme "neon",
      .schemes [⟨"neon", ["red", "sky blue"]⟩, ⟨"western", ["a", "b"]⟩]].map Setting.entry) _ :=
    written_neon
  obtain ⟨s, hload, hfound, -, hkept⟩ := colors_of_file hfile henv (by decide +kernel)
  refine ⟨s, hload, (hfound ⟨"neon", _⟩ (.head _)).2 ?_,
    (hfound ⟨"western", _⟩ (.tail _ (.head _))).2 ?_, hkept ⟨"japanese", _⟩ (.tail _ (.head _)) ?_⟩
  · decide +kernel
  · intro b hb hsame
    simp only [builtin, List.mem_cons, List.not_mem_nil, or_false] at hb
    rcases hb with rfl | rfl | rfl
    · exact .inl rfl
    · exact absurd hsame (by decide +kernel)
    · exact absurd hsame (by decide +kernel)
  · decide +kernel

/-- A scheme named like a built-in one in other letters is loaded, and its name gives the colors of
the built-in one. -/
theorem scheme_hidden_by_western :
    readFile? "schemes:\n  Western: [a, b, c, d, e, f]\n" =
        some [("schemes", .table [schemeEntry ⟨"Western", ["a", "b", "c", "d", "e", "f"]⟩])] ∧
      ∃ s, load? "CUBEVIZ" (some "schemes:\n  Western: [a, b, c, d, e, f]\n") [] = some s ∧
        Command.colors s (some "Western") =
          .ok ["white", "green", "red", "yellow", "blue", "orange"] ∧
        Command.colors s (some "Western") ≠ .ok ["a", "b", "c", "d", "e", "f"] := by
  have hread : readFile? "schemes:\n  Western: [a, b, c, d, e, f]\n" =
      some ([Setting.schemes [⟨"Western", ["a", "b", "c", "d", "e", "f"]⟩]].map Setting.entry) := by
    rfl
  obtain ⟨s, hload, hschemes⟩ : ∃ s, load? "CUBEVIZ" (some _) [] = some s ∧ _ :=
    load?_layered hread nofun
  have hwestern : ⟨"western", ["white", "green", "red", "yellow", "blue", "orange"]⟩ ∈
      builtin.schemes := by
    decide
  have hlower : "western".toLower = "western" := by decide +kernel
  have hlower' : "Western".toLower = "western" := by decide +kernel
  have hsame : sameName "western" "Western" = true := sameName_iff.2 (hlower.trans hlower'.symm)
  have hcolors := colors_of_hidden hschemes (List.pairwise_singleton _ _) (List.mem_singleton.2 rfl)
    hwestern hsame (by decide)
  refine ⟨hread, s, hload, hcolors, ?_⟩
  rw [hcolors]
  decide

end Twisty.Settings
