import PullParse.Proofs.Entry.Installed

/-!
# The settings of a parse, field by field

Each field of the settings that a parse runs under comes from one place: the override
of its name, or else the options, where a dictionary stands for the standard in what it
does not name, and null for what is active. So overrides may as well be entered into
the dictionary, or into the settings, that are passed. Options that are no settings, and
overrides that name none, are refused before anything has happened.
-/

namespace PullParse

/-! ## Names of settings -/

namespace Setting

theorem ofName?_eq_some_iff {name : String} {field : Setting} :
    ofName? name = some field ↔ field.name = name := by
  constructor
  · intro h
    simpa using List.find?_some h
  · rintro rfl
    cases field <;> decide

theorem ofName?_eq_none_iff {name : String} :
    ofName? name = none ↔ ∀ field : Setting, field.name ≠ name := by
  simp only [Option.eq_none_iff_forall_ne_some, ne_eq, ofName?_eq_some_iff]

/-- No parameter of a parse has the name of a setting. -/
theorem not_parameter (field : Setting) : Options.parameters.contains field.name = false := by
  cases field <;> decide

end Setting

/-! ## Dictionaries and the fields that they name -/

/-- No two keys of a dictionary are equal. -/
def Value.DistinctKeys (entries : List (Value × Value)) : Prop :=
  entries.Pairwise fun entry later => entry.1.equal later.1 = false

/-- The keyword arguments of a call as entries of a dictionary. -/
def Value.keywords (changes : List (String × Value)) : List (Value × Value) :=
  changes.map fun change => (.str change.1, change.2)

/-- A dictionary with keyword arguments entered into it, which replace the entries of their keys. -/
def Value.merged (entries : List (Value × Value)) (changes : List (String × Value)) :
    List (Value × Value) :=
  changes.foldl (fun entries change => insertEntry (.str change.1) change.2 entries) entries

namespace Value

variable {entries : List (Value × Value)} {entry : Value × Value} {name : String} {v : Value}

theorem equal_str_self (text : String) : equal (.str text) (.str text) = true :=
  equal_str_iff.mpr rfl

theorem distinctKeys_keywords {changes : List (String × Value)}
    (h : (changes.map Prod.fst).Nodup) : DistinctKeys (keywords changes) := by
  rw [DistinctKeys, keywords, List.pairwise_map]
  refine (List.pairwise_map.mp h).imp fun hne => ?_
  exact Bool.eq_false_iff.mpr fun heq => hne (Value.str.inj (equal_str_iff.mp heq))

/-- What stands in a dictionary after an entry. -/
theorem mem_insertEntry (h : DistinctKeys entries) :
    entry ∈ insertEntry (.str name) v entries ↔
      entry = (.str name, v) ∨ entry ∈ entries ∧ entry.1 ≠ .str name := by
  induction entries with
  | nil => simp [insertEntry]
  | cons first rest ih =>
      obtain ⟨hfirst, hrest⟩ := List.pairwise_cons.mp h
      obtain ⟨key, value⟩ := first
      rw [insertEntry]
      by_cases hkey : equal key (.str name) = true
      · obtain rfl := equal_str_iff.mp hkey
        rw [if_pos hkey]
        -- the key occurs in front only
        have hother : ∀ e ∈ rest, e.1 ≠ .str name := by
          intro e he heq
          have hequal := hfirst e he
          rw [heq, equal_str_self] at hequal
          cases hequal
        constructor
        · rintro (_ | ⟨_, hmem⟩)
          · exact .inl rfl
          · exact .inr ⟨.tail _ hmem, hother _ hmem⟩
        · rintro (rfl | ⟨_ | ⟨_, hmem⟩, hne⟩)
          · exact .head _
          · exact absurd rfl hne
          · exact .tail _ hmem
      · rw [if_neg hkey]
        have hne : key ≠ .str name := fun heq => hkey (equal_str_iff.mpr heq)
        rw [List.mem_cons, ih hrest, List.mem_cons]
        constructor
        · rintro (rfl | rfl | ⟨hmem, hentry⟩)
          · exact .inr ⟨.inl rfl, hne⟩
          · exact .inl rfl
          · exact .inr ⟨.inr hmem, hentry⟩
        · rintro (rfl | ⟨rfl | hmem, hentry⟩)
          · exact .inr (.inl rfl)
          · exact .inl rfl
          · exact .inr (.inr ⟨hmem, hentry⟩)

theorem DistinctKeys.insertEntry (h : DistinctKeys entries) (name : String) (v : Value) :
    DistinctKeys (insertEntry (.str name) v entries) := by
  induction entries with
  | nil => exact List.pairwise_singleton _ _
  | cons first rest ih =>
      obtain ⟨hfirst, hrest⟩ := List.pairwise_cons.mp h
      obtain ⟨key, value⟩ := first
      rw [Value.insertEntry]
      by_cases hkey : equal key (.str name) = true
      · rw [if_pos hkey]
        exact List.pairwise_cons.mpr ⟨hfirst, hrest⟩
      · rw [if_neg hkey]
        refine List.pairwise_cons.mpr ⟨fun e he => ?_, ih hrest⟩
        rcases (mem_insertEntry hrest).mp he with rfl | ⟨hmem, -⟩
        · exact Bool.eq_false_iff.mpr hkey
        · exact hfirst e hmem

end Value

namespace Settings

open Value (DistinctKeys keywords merged)

variable {s t : Settings} {entries : List (Value × Value)} {field : Setting} {v : Value}

/-- Sets the field that an entry names, if it names one. -/
def enter (s : Settings) (entry : Value × Value) : Settings :=
  match entry.1 with
  | .str name => s.setNamed name entry.2
  | _ => s

theorem ofEntries_eq (entries : List (Value × Value)) :
    ofEntries entries = entries.foldl enter standard := rfl

/-- Settings are the same if their fields are. -/
theorem eq_of_get (h : ∀ field, s.get field = t.get field) : s = t := by
  obtain ⟨userData, propagate, errorValue, guard⟩ := s
  obtain ⟨userData', propagate', errorValue', guard'⟩ := t
  cases h .userData
  cases h .propagate
  cases h .errorValue
  cases h .guard
  rfl

theorem get_enter_self (s : Settings) (field : Setting) (v : Value) :
    (s.enter (.str field.name, v)).get field = v := by
  show (s.setNamed field.name v).get field = v
  rw [setNamed, Setting.ofName?_eq_some_iff.mpr rfl]
  cases field <;> rfl

theorem get_enter_of_ne (s : Settings) {entry : Value × Value}
    (h : entry.1 ≠ .str field.name) : (s.enter entry).get field = s.get field := by
  rw [enter]
  cases hkey : entry.1 with
  | str name =>
      simp only [setNamed]
      cases hname : Setting.ofName? name with
      | none => rfl
      | some other =>
          have hne : other ≠ field := by
            rintro rfl
            rw [Setting.ofName?_eq_some_iff] at hname
            exact h (by rw [hkey, hname])
          cases other <;> cases field <;> first | rfl | exact absurd rfl hne
  | _ => rfl

/-- A field that no entry names stays as it is. -/
theorem get_foldl_of_not_mem (s : Settings) (h : ∀ v, (.str field.name, v) ∉ entries) :
    (entries.foldl enter s).get field = s.get field := by
  induction entries generalizing s with
  | nil => rfl
  | cons entry rest ih =>
      have hentry : entry.1 ≠ .str field.name := fun heq => h entry.2 (by rw [← heq]; exact .head _)
      rw [List.foldl_cons, ih _ fun v hv => h v (.tail _ hv), get_enter_of_ne s hentry]

/-- A field that an entry names is the value of the entry, whatever stands before and behind it. -/
theorem get_foldl_of_mem (s : Settings) (hkeys : DistinctKeys entries)
    (h : (.str field.name, v) ∈ entries) : (entries.foldl enter s).get field = v := by
  induction entries generalizing s with
  | nil => cases h
  | cons entry rest ih =>
      obtain ⟨hentry, hrest⟩ := List.pairwise_cons.mp hkeys
      rw [List.foldl_cons]
      rcases List.mem_cons.mp h with rfl | hmem
      · rw [get_foldl_of_not_mem _ fun v' hv' => ?_, get_enter_self]
        have hequal := hentry _ hv'
        rw [Value.equal_str_self] at hequal
        cases hequal
      · exact ih _ hrest hmem

/-- An entry of a dictionary sets its field behind all the others. -/
theorem ofEntries_insertEntry (hkeys : DistinctKeys entries) (name : String) (v : Value) :
    ofEntries (Value.insertEntry (.str name) v entries) =
      (ofEntries entries).enter (.str name, v) := by
  have hkeys' := hkeys.insertEntry name v
  refine eq_of_get fun field => ?_
  rw [ofEntries_eq, ofEntries_eq]
  by_cases hname : field.name = name
  · subst hname
    rw [get_enter_self]
    exact get_foldl_of_mem _ hkeys' ((Value.mem_insertEntry hkeys).mpr (.inl rfl))
  · have hne : Value.str name ≠ .str field.name := fun heq => hname (Value.str.inj heq).symm
    rw [get_enter_of_ne _ hne]
    have hmem : ∀ w, (Value.str field.name, w) ∈ Value.insertEntry (.str name) v entries ↔
        (Value.str field.name, w) ∈ entries := by
      intro w
      rw [Value.mem_insertEntry hkeys]
      constructor
      · rintro (heq | ⟨hw, -⟩)
        · exact absurd (congrArg Prod.fst heq).symm hne
        · exact hw
      · exact fun hw => .inr ⟨hw, hne.symm⟩
    by_cases hnamed : ∃ w, (Value.str field.name, w) ∈ entries
    · obtain ⟨w, hw⟩ := hnamed
      rw [get_foldl_of_mem _ hkeys hw, get_foldl_of_mem _ hkeys' ((hmem w).mpr hw)]
    · rw [not_exists] at hnamed
      rw [get_foldl_of_not_mem _ hnamed,
        get_foldl_of_not_mem _ fun w hw => hnamed w ((hmem w).mp hw)]

/-- To enter keyword arguments into a dictionary is to enter them behind it. -/
theorem ofEntries_merged (hkeys : DistinctKeys entries) (changes : List (String × Value)) :
    ofEntries (merged entries changes) = (keywords changes).foldl enter (ofEntries entries) := by
  induction changes generalizing entries with
  | nil => rfl
  | cons change changes ih =>
      show ofEntries (merged (Value.insertEntry (.str change.1) change.2 entries) changes) = _
      rw [ih (hkeys.insertEntry change.1 change.2), ofEntries_insertEntry hkeys]
      rfl

/-- Overrides that all name settings are entered one after the other. -/
theorem override_eq (s : Settings) {changes : List (String × Value)}
    (h : ∀ change ∈ changes, ∃ field : Setting, field.name = change.1) :
    s.override changes = .ok ((keywords changes).foldl enter s) := by
  have hnone : (changes.find? fun change => (Setting.ofName? change.1).isNone) = none := by
    refine List.find?_eq_none.mpr fun change hmem => ?_
    obtain ⟨field, hfield⟩ := h change hmem
    rw [Setting.ofName?_eq_some_iff.mpr hfield]
    exact Bool.false_ne_true
  rw [override, hnone, keywords, List.foldl_map]
  rfl

/-- An override that names no setting is refused, whatever the settings are. -/
theorem override_refused {changes : List (String × Value)} {change : String × Value}
    (hmem : change ∈ changes) (h : ∀ field : Setting, field.name ≠ change.1) :
    ∃ fault, ∀ s : Settings, s.override changes = .error fault := by
  have hnone : (Setting.ofName? change.1).isNone = true := by
    rw [Setting.ofName?_eq_none_iff.mpr h]
    rfl
  cases hfind : changes.find? fun change => (Setting.ofName? change.1).isNone with
  | none => exact absurd hnone (List.find?_eq_none.mp hfind change hmem)
  | some found => exact ⟨.wrongField "ParseConfig" found.1, fun s => by rw [override, hfind]; rfl⟩

end Settings

namespace Options

open Value (DistinctKeys keywords merged)

/-- Where a field of the settings comes from, given the active settings and the overrides. -/
inductive Gives (active : Settings) (overrides : List (String × Value)) :
    Options → Setting → Value → Prop
  | override {options field v} (h : (field.name, v) ∈ overrides) :
      Gives active overrides options field v
  | active {field} (h : field.name ∉ overrides.map Prod.fst) :
      Gives active overrides .active field (active.get field)
  | settings {s field} (h : field.name ∉ overrides.map Prod.fst) :
      Gives active overrides (.settings s) field (s.get field)
  /-- A dictionary has an entry under the name of the field. -/
  | entry {entries field v} (h : field.name ∉ overrides.map Prod.fst)
      (hentry : (.str field.name, v) ∈ entries) :
      Gives active overrides (.mapping entries) field v
  /-- A dictionary has no such entry, and the field is not taken from the active settings. -/
  | standard {entries field} (h : field.name ∉ overrides.map Prod.fst)
      (hentry : ∀ v, (.str field.name, v) ∉ entries) :
      Gives active overrides (.mapping entries) field (Settings.standard.get field)

/-- The settings that the options stand for without any override. -/
def base (active : Settings) : Options → Option Settings
  | .active => some active
  | .settings s => some s
  | .mapping entries => some (Settings.ofEntries entries)
  | .other _ => none

variable {active b : Settings} {options : Options} {overrides : List (String × Value)}

/-- Overrides that name settings name no parameter. -/
theorem resolve_eq_combine (options : Options) (active : Settings)
    (h : ∀ change ∈ overrides, ∃ field : Setting, field.name = change.1) :
    options.resolve active overrides = options.combine active overrides := by
  have hnone : (overrides.find? fun change => parameters.contains change.1) = none := by
    refine List.find?_eq_none.mpr fun change hmem => ?_
    obtain ⟨field, hfield⟩ := h change hmem
    rw [← hfield, field.not_parameter]
    exact Bool.false_ne_true
  rw [resolve, hnone]

theorem resolve_eq (hbase : options.base active = some b)
    (h : ∀ change ∈ overrides, ∃ field : Setting, field.name = change.1) :
    options.resolve active overrides = .ok ((keywords overrides).foldl Settings.enter b) := by
  rw [resolve_eq_combine options active h]
  cases options with
  | active | settings | mapping =>
      cases hbase
      exact Settings.override_eq _ h
  | other v => cases hbase

/-- Options that are no settings, and overrides that name none, are refused with one fault. -/
theorem resolve_refused (options : Options) (overrides : List (String × Value))
    (h : (∃ v, options = .other v) ∨
      ∃ change ∈ overrides, ∀ field : Setting, field.name ≠ change.1) :
    ∃ fault, ∀ active, options.resolve active overrides = .error fault := by
  cases hparameter : overrides.find? fun change => parameters.contains change.1 with
  | some change => exact ⟨.repeatedArgument "parse" change.1, fun _ => by rw [resolve, hparameter]⟩
  | none =>
      have hcombine (active : Settings) :
          options.resolve active overrides = options.combine active overrides := by
        rw [resolve, hparameter]
      simp only [hcombine]
      cases options with
      | other v => exact ⟨misuse v overrides, fun _ => rfl⟩
      | active | settings | mapping =>
          obtain ⟨v, hv⟩ | ⟨change, hmem, hname⟩ := h
          · cases hv
          · obtain ⟨fault, hfault⟩ := Settings.override_refused hmem hname
            exact ⟨fault, fun _ => hfault _⟩

variable {field : Setting} {v : Value}

theorem mem_keywords : (.str field.name, v) ∈ keywords overrides ↔ (field.name, v) ∈ overrides := by
  simp [keywords]

/-- Where no override names a field, it is given by the options alone. -/
theorem get_base (hbase : options.base active = some b)
    (hkeys : ∀ entries, options = .mapping entries → DistinctKeys entries)
    (hname : field.name ∉ overrides.map Prod.fst) :
    b.get field = v ↔ options.Gives active overrides field v := by
  have unnamed {w : Value} (h : (field.name, w) ∈ overrides) : False :=
    hname (List.mem_map_of_mem h)
  cases options with
  | active =>
      cases hbase
      constructor
      · rintro rfl
        exact .active hname
      · rintro (h | _)
        · exact (unnamed h).elim
        · rfl
  | settings s =>
      cases hbase
      constructor
      · rintro rfl
        exact .settings hname
      · rintro (h | _)
        · exact (unnamed h).elim
        · rfl
  | mapping entries =>
      cases hbase
      constructor
      · rintro rfl
        by_cases hentry : ∃ w, (.str field.name, w) ∈ entries
        · obtain ⟨w, hw⟩ := hentry
          rw [Settings.ofEntries_eq, Settings.get_foldl_of_mem _ (hkeys _ rfl) hw]
          exact .entry hname hw
        · rw [not_exists] at hentry
          rw [Settings.ofEntries_eq, Settings.get_foldl_of_not_mem _ hentry]
          exact .standard hname hentry
      · intro hgives
        cases hgives with
        | override h => exact (unnamed h).elim
        | entry _ hentry => exact Settings.get_foldl_of_mem _ (hkeys _ rfl) hentry
        | standard _ hentry => exact Settings.get_foldl_of_not_mem _ hentry
  | other v => cases hbase

/-- Each field of the resolved settings is what is given for it, and nothing else. -/
theorem get_resolved (hbase : options.base active = some b)
    (hoverrides : (overrides.map Prod.fst).Nodup)
    (hkeys : ∀ entries, options = .mapping entries → DistinctKeys entries) (field : Setting)
    (v : Value) :
    ((keywords overrides).foldl Settings.enter b).get field = v ↔
      options.Gives active overrides field v := by
  have hdistinct := Value.distinctKeys_keywords hoverrides
  by_cases hname : field.name ∈ overrides.map Prod.fst
  · constructor
    · rintro rfl
      obtain ⟨⟨_, w⟩, hw, rfl⟩ := List.mem_map.mp hname
      rw [Settings.get_foldl_of_mem _ hdistinct (mem_keywords.mpr hw)]
      exact .override hw
    · intro hgives
      cases hgives with
      | override h => exact Settings.get_foldl_of_mem _ hdistinct (mem_keywords.mpr h)
      | active h | settings h | entry h _ | standard h _ => exact absurd hname h
  · have hunnamed : ∀ w, (.str field.name, w) ∉ keywords overrides := fun w hw =>
      hname (List.mem_map_of_mem (mem_keywords.mp hw))
    rw [Settings.get_foldl_of_not_mem _ hunnamed]
    exact get_base hbase hkeys hname

end Options

/-- Of its options and overrides a parse sees what they resolve to, and nothing else. -/
theorem Parser.parse_eq_of_resolve (p : Parser) {options options' : Options}
    {overrides overrides' : List (String × Value)}
    (h : ∀ active, options.resolve active overrides = options'.resolve active overrides') :
    p.parse options overrides = p.parse options' overrides' :=
  bind_congr fun active => by rw [h active]

/-- **The settings of a parse are resolved field by field, and bad ones touch nothing.** Take
options that are settings, a dictionary, or null for the active settings, and overrides that name
settings. They resolve to settings of which each field has exactly the value that is given for it,
and the parse runs under these: as it would with them passed as options, and for a dictionary as
with the overrides entered into it. If the options are anything else, or an override names no
setting, there is one fault that the parse raises in any context, and it leaves all of the context
as it was: the producer and its calls, the settings, the accumulator and the log. Nothing of this
depends on the options being looked at first: installing whatever is passed as the active settings,
reading its fields then, and putting back what was active is the same run. -/
theorem settings_by_field (p : Parser) (active : Settings) (options : Options)
    (overrides : List (String × Value)) (hoverrides : (overrides.map Prod.fst).Nodup)
    (hkeys : ∀ entries, options = .mapping entries → Value.DistinctKeys entries) :
    ((∀ v, options ≠ .other v) →
        (∀ change ∈ overrides, ∃ field : Setting, field.name = change.1) →
          (∃ c, options.resolve active overrides = .ok c ∧
            (∀ field v, c.get field = v ↔ options.Gives active overrides field v) ∧
            ∀ budget ctx, ctx.session.settings = active →
              (p.parse options overrides).run budget ctx =
                  ((p.parseUnder c).run budget
                    (ctx.mapSession fun s => { s with settings := c })).mapFinal
                      (Context.restored active) ∧
                (p.parse (.settings c) []).run budget ctx =
                  (p.parse options overrides).run budget ctx) ∧
            ∀ entries, options = .mapping entries →
              p.parse (.mapping (Value.merged entries overrides)) [] =
                p.parse options overrides) ∧
      ((∃ v, options = .other v) ∨
          (∃ change ∈ overrides, ∀ field : Setting, field.name ≠ change.1) →
        ∃ fault, ∀ budget ctx,
          (p.parse options overrides).run budget ctx = .raised fault ctx) ∧
      ∀ v, options = .ofValue v → ∀ budget ctx,
        (p.parseInstalling v overrides).run budget ctx.installed =
          ((p.parse options overrides).run budget ctx).mapFinal Context.installed := by
  refine ⟨fun hproper hnames => ⟨?_, ?_⟩, fun hbad => ?_, ?_⟩
  · obtain ⟨b, hbase⟩ : ∃ b, options.base active = some b := by
      cases options with
      | active | settings | mapping => exact ⟨_, rfl⟩
      | other v => exact absurd rfl (hproper v)
    have hresolve := Options.resolve_eq hbase hnames
    refine ⟨_, hresolve, Options.get_resolved hbase hoverrides hkeys, ?_⟩
    rintro budget ctx rfl
    have hrun := Parser.parse_resolved ctx hresolve p budget
    exact ⟨hrun, (Parser.parse_resolved ctx rfl p budget).trans hrun.symm⟩
  · rintro entries rfl
    refine p.parse_eq_of_resolve fun active => ?_
    rw [Options.resolve_eq rfl hnames, Options.resolve_eq rfl (List.forall_mem_nil _),
      Settings.ofEntries_merged (hkeys _ rfl)]
    rfl
  · obtain ⟨fault, hfault⟩ := options.resolve_refused overrides hbad
    exact ⟨fault, fun budget ctx => Parser.parse_refused ctx (hfault _) p budget⟩
  · rintro v rfl budget ctx
    exact p.run_parseInstalling v overrides budget ctx

/-- A dictionary that names one setting, with keys that name none around it. -/
def placeholderEntries : List (Value × Value) :=
  [(.int 3, .str "ignored"), (.str Setting.errorValue.name, .str "base"), (.str "other", .null)]

/-- The placeholder is that of the dictionary, the failure is answered as the override says, and the
rest is the standard, not what is active. The same overrides on a number are refused before the
producer is called. -/
theorem settings_by_field_placeholder :
    (∀ entries, Options.mapping placeholderEntries = .mapping entries →
        Value.DistinctKeys entries) ∧
      (Options.mapping placeholderEntries).resolve ⟨.str "outer", .bool true, .null, .bool false⟩
          [(Setting.propagate.name, .bool false)] =
        .ok ⟨.null, .bool false, .str "base", .bool true⟩ ∧
      ∃ fault, (Parser.eof.parse (.other (.int 5)) [(Setting.propagate.name, .bool false)]).run 4
          (.opened (.ofElements (.listed [.pair (.str "a") (.int 1)])) .fresh) =
        .raised fault (.opened (.ofElements (.listed [.pair (.str "a") (.int 1)])) .fresh) := by
  have hkeys : ∀ entries, Options.mapping placeholderEntries = .mapping entries →
      Value.DistinctKeys entries := by
    intro entries h
    cases h
    simp [Value.DistinctKeys, placeholderEntries, Value.equal, Setting.name]
  have hoverrides : ([(Setting.propagate.name, Value.bool false)].map Prod.fst).Nodup := by decide
  have hnames : ∀ change ∈ [(Setting.propagate.name, Value.bool false)],
      ∃ field : Setting, field.name = change.1 := by
    intro change hmem
    exact ⟨.propagate, by rw [List.mem_singleton.mp hmem]⟩
  obtain ⟨⟨c, hresolve, hfields, -⟩, -⟩ :=
    (settings_by_field Parser.eof ⟨.str "outer", .bool true, .null, .bool false⟩
      (.mapping placeholderEntries) _ hoverrides hkeys).1 (fun v h => by cases h) hnames
  obtain ⟨fault, hfault⟩ :=
    (settings_by_field Parser.eof .standard (.other (.int 5)) _ hoverrides
      (fun entries h => by cases h)).2.1 (.inl ⟨_, rfl⟩)
  refine ⟨hkeys, ?_, fault, hfault _ _⟩
  have hunnamed : ∀ field : Setting, field ≠ .propagate →
      field.name ∉ [(Setting.propagate.name, Value.bool false)].map Prod.fst := by
    intro field hne
    cases field <;> first | exact absurd rfl hne | decide
  rw [hresolve]
  refine congrArg _ (Settings.eq_of_get fun field => (hfields field _).mpr ?_)
  cases field with
  | propagate => exact .override (.head _)
  | errorValue => exact .entry (hunnamed _ (by decide)) (.tail _ (.head _))
  | userData => exact .standard (hunnamed _ (by decide)) (by simp [placeholderEntries, Setting.name])
  | guard => exact .standard (hunnamed _ (by decide)) (by simp [placeholderEntries, Setting.name])

end PullParse
