import AgentScale.Client.Config
import AgentScale.Library.Keyed

set_option autoImplicit false

/-! # The relays of the daemon

The daemon installs the relays of its configuration in the iroh endpoint, and keeps a map of them,
`known_relays`, by which `reload_edges` finds what has changed. The endpoint knows a relay by its parsed
`RelayUrl`; the map knows it by a string. At the start the string of an edge's relay is what the parsed
URL prints; in a reload, and for the relays of Control, it is the string of the configuration. -/

namespace AgentScale.Client

open Checked Keyed ControlApi

/-- `iroh::RelayUrl`: parsing, and `Display`, whose text is parsed back. -/
structure RelayUrls where
  RelayUrl : Type
  decEq : DecidableEq RelayUrl
  parse : String → Option RelayUrl
  print : RelayUrl → String
  parse_print : ∀ url, parse (print url) = some url

instance (U : RelayUrls) : DecidableEq U.RelayUrl := U.decEq

/-- The QUIC port and the token of a relay. -/
abbrev RelayRuntimeConfig := Option UInt16 × Option String

/-- What `RelayConfig::from` makes of a URL: the default QUIC port and no token. -/
def defaultRuntime : RelayRuntimeConfig := (some 7842, none)

variable (U : RelayUrls)

structure Relays where
  /-- `known_relays`. -/
  known : List (String × RelayRuntimeConfig)
  /-- The relays in the endpoint. -/
  installed : List (U.RelayUrl × RelayRuntimeConfig)

/-! ## Start -/

/-- `relays` while `run` collects them: string, parsed URL and configuration. -/
abbrev Collected := List (String × U.RelayUrl × RelayRuntimeConfig)

/-- A relay of an edge: `entry(..).or_insert_with(..)`. -/
def collectEdgeRelay (name : String) (relays : Collected U) (r : String) :
    Except String (Collected U) := do
  let u ← okOr (U.parse r) ("bad relay " ++ r ++ " for edge " ++ name)
  return if (lookup Prod.fst (U.print u) relays).isSome then relays
    else upsert Prod.fst (U.print u, u, defaultRuntime) relays

/-- A relay of Control: `insert`. -/
def collectControlRelay (credential : String) (relays : Collected U) (relay : RelayInfo) :
    Except String (Collected U) := do
  let url ← okOr (U.parse relay.url) ("bad managed relay " ++ relay.url)
  return upsert Prod.fst (relay.url, url, relay.qadPort, some credential) relays

/-- `run` up to the endpoint, from the configuration on. -/
def startRelays (cfg : Config) : Except String (Relays U) := do
  ensure (cfg.edges ≠ []) "no edges configured"
  let relays ← foldAll (fun relays e => foldAll (collectEdgeRelay U e.name) relays e.relays) [] cfg.edges
  let relays ← match cfg.control with
    | none => pure relays
    | some control => do
      let credential ← okOr control.map.map.relayCredential
        "control map is missing its Relay credential"
      foldAll (collectControlRelay U credential) relays control.map.map.relays
  return ⟨relays.map (fun p => (p.1, p.2.2)), collect Prod.fst (relays.map Prod.snd)⟩

/-! ## Reload -/

def desiredRelays (cfg : Config) : List (String × RelayRuntimeConfig) :=
  let edges := collect Prod.fst ((cfg.edges.flatMap EdgeCfg.relays).map (fun url => (url, defaultRuntime)))
  match cfg.control with
  | none => edges
  | some control => control.map.map.relays.foldl (fun relays relay =>
    upsert Prod.fst (relay.url, relay.qadPort, control.map.map.relayCredential) relays) edges

def insertRelay (s : Relays U) (entry : String × RelayRuntimeConfig) : Relays U :=
  match U.parse entry.1 with
  | some url =>
    { known := upsert Prod.fst entry s.known, installed := upsert Prod.fst (url, entry.2) s.installed }
  | none => s

/-- `remove_relay` and the entry in the map. -/
def removeRelay (s : Relays U) (value : String) : Relays U :=
  match U.parse value with
  | some url => { known := discard Prod.fst value s.known, installed := discard Prod.fst url s.installed }
  | none => s

/-- The relays in `reload_edges`, with the configuration that it has read. -/
def reloadRelays (s : Relays U) (cfg : Config) : Relays U :=
  let desired := desiredRelays cfg
  let added := desired.filter (fun entry => lookup Prod.fst entry.1 s.known ≠ some entry)
  let removed := (s.known.map Prod.fst).filter (fun url => (lookup Prod.fst url desired).isNone)
  removed.foldl (removeRelay U) (added.foldl (insertRelay U) s)

/-! ## What is to be installed -/

def Config.controlRelays (cfg : Config) : List String :=
  match cfg.control with
  | none => []
  | some control => control.map.map.relays.map RelayInfo.url

def Config.relayStrings (cfg : Config) : List String :=
  cfg.edges.flatMap EdgeCfg.relays ++ cfg.controlRelays

def Named (cfg : Config) (url : U.RelayUrl) : Prop := ∃ r ∈ cfg.relayStrings, U.parse r = some url

/-- A string that is spelled as its URL is printed, if it is a URL. -/
def Canonical (r : String) : Prop := ∀ url, U.parse r = some url → U.print url = r

/-- The endpoint has the relay. -/
def Relays.Installed {U : RelayUrls} (s : Relays U) (url : U.RelayUrl) : Prop :=
  url ∈ s.installed.map Prod.fst

instance (s : Relays U) (url : U.RelayUrl) : Decidable (s.Installed url) :=
  inferInstanceAs (Decidable (url ∈ s.installed.map Prod.fst))

variable {U}

/-! ## Inserting and removing -/

def parseable (U : RelayUrls) (entries : List (String × RelayRuntimeConfig)) :
    List (String × RelayRuntimeConfig) :=
  entries.filter (fun entry => (U.parse entry.1).isSome)

theorem mem_parseable {entries : List (String × RelayRuntimeConfig)}
    {entry : String × RelayRuntimeConfig} :
    entry ∈ parseable U entries ↔ entry ∈ entries ∧ ∃ url, U.parse entry.1 = some url := by
  rw [parseable, List.mem_filter, Option.isSome_iff_exists]

theorem known_inserted (entries : List (String × RelayRuntimeConfig)) (s : Relays U) :
    (entries.foldl (insertRelay U) s).known =
      (parseable U entries).foldl (fun l entry => upsert Prod.fst entry l) s.known := by
  induction entries generalizing s with
  | nil => rfl
  | cons entry entries ih =>
    rw [List.foldl_cons, ih, insertRelay]
    cases hparse : U.parse entry.1 <;> simp [parseable, hparse]

theorem known_removed (values : List String) (s : Relays U) :
    (values.foldl (removeRelay U) s).known =
      (values.filter (fun value => (U.parse value).isSome)).foldl
        (fun l value => discard Prod.fst value l) s.known := by
  induction values generalizing s with
  | nil => rfl
  | cons value values ih =>
    rw [List.foldl_cons, ih, removeRelay]
    cases hparse : U.parse value <;> simp [hparse]

theorem installed_insertRelay (s : Relays U) (entry : String × RelayRuntimeConfig)
    (url : U.RelayUrl) :
    (insertRelay U s entry).Installed url ↔ s.Installed url ∨ U.parse entry.1 = some url := by
  unfold insertRelay
  cases hparse : U.parse entry.1 with
  | none => simp
  | some url' =>
    simp only [Relays.Installed, mem_keys_upsert, Option.some.injEq]
    rw [or_comm, eq_comm]

theorem installed_inserted (entries : List (String × RelayRuntimeConfig)) (s : Relays U)
    (url : U.RelayUrl) :
    (entries.foldl (insertRelay U) s).Installed url ↔
      s.Installed url ∨ ∃ entry ∈ entries, U.parse entry.1 = some url := by
  induction entries generalizing s with
  | nil => simp
  | cons entry entries ih =>
    rw [List.foldl_cons, ih, installed_insertRelay, List.exists_mem_cons_iff, or_assoc]

theorem installed_removeRelay (s : Relays U) (value : String) (url : U.RelayUrl) :
    (removeRelay U s value).Installed url ↔ s.Installed url ∧ U.parse value ≠ some url := by
  unfold removeRelay
  cases hparse : U.parse value with
  | none => simp
  | some url' =>
    simp only [Relays.Installed, mem_keys_discard, ne_eq, Option.some.injEq]
    exact and_congr_right (fun _ => not_congr eq_comm)

theorem installed_removed (values : List String) (s : Relays U) (url : U.RelayUrl) :
    (values.foldl (removeRelay U) s).Installed url ↔
      s.Installed url ∧ ∀ value ∈ values, U.parse value ≠ some url := by
  induction values generalizing s with
  | nil => simp
  | cons value values ih =>
    rw [List.foldl_cons, ih, installed_removeRelay, List.forall_mem_cons, and_assoc]

/-! ## The desired relays -/

/-- The entries that a configuration asks for, in order: a later one replaces an earlier one. -/
def Config.relayEntries (cfg : Config) : List (String × RelayRuntimeConfig) :=
  (cfg.edges.flatMap EdgeCfg.relays).map (fun url => (url, defaultRuntime)) ++
    match cfg.control with
    | none => []
    | some control => control.map.map.relays.map
        (fun relay => (relay.url, relay.qadPort, control.map.map.relayCredential))

theorem desiredRelays_eq (cfg : Config) : desiredRelays cfg = collect Prod.fst cfg.relayEntries := by
  unfold desiredRelays Config.relayEntries collect
  cases cfg.control with
  | none => simp
  | some control => simp [List.foldl_append, List.foldl_map]

theorem distinct_desiredRelays (cfg : Config) : Distinct Prod.fst (desiredRelays cfg) := by
  rw [desiredRelays_eq]
  exact distinct_collect ..

/-- The strings of the desired relays are those of the configuration. -/
theorem mem_keys_desiredRelays (cfg : Config) (r : String) :
    r ∈ (desiredRelays cfg).map Prod.fst ↔ r ∈ cfg.relayStrings := by
  rw [desiredRelays_eq, collect, mem_keys_foldl_upsert]
  unfold Config.relayEntries Config.relayStrings Config.controlRelays
  cases cfg.control <;> simp

theorem named_iff (cfg : Config) (url : U.RelayUrl) :
    Named U cfg url ↔ ∃ entry ∈ desiredRelays cfg, U.parse entry.1 = some url := by
  unfold Named
  simp only [← mem_keys_desiredRelays, List.mem_map, exists_exists_and_eq_and]

/-! ## A reload -/

/-- What the daemon keeps: the map has one entry for each relay of the endpoint, under the printed form
    of its URL. -/
structure Relays.Consistent (s : Relays U) : Prop where
  distinct : Distinct Prod.fst s.known
  canonical : ∀ entry ∈ s.known, ∃ url, U.parse entry.1 = some url ∧ U.print url = entry.1
  installed : ∀ url, s.Installed url ↔ ∃ entry ∈ s.known, U.parse entry.1 = some url

variable {s : Relays U} {cfg : Config}

theorem Relays.Consistent.parses (h : s.Consistent) {entry : String × RelayRuntimeConfig}
    (he : entry ∈ s.known) : (U.parse entry.1).isSome := by
  obtain ⟨url, hparse, _⟩ := h.canonical entry he
  rw [hparse]
  rfl

/-- The map follows the configuration, but for the strings that are no URLs. -/
theorem known_reloadRelays (h : s.Consistent) :
    (reloadRelays U s cfg).known.Perm (parseable U (desiredRelays cfg)) := by
  have hnew : Distinct Prod.fst (parseable U (desiredRelays cfg)) :=
    (distinct_desiredRelays cfg).sublist List.filter_sublist
  have hadded : parseable U ((desiredRelays cfg).filter
      (fun entry => lookup Prod.fst entry.1 s.known ≠ some entry)) =
      changed Prod.fst s.known (parseable U (desiredRelays cfg)) := by
    unfold parseable changed
    rw [List.filter_comm]
    exact List.filter_congr (fun entry _ => by rw [collectGet_eq_lookup h.distinct])
  -- every string of the map is a URL, so that nothing is kept for want of one
  have hremoved : ((s.known.map Prod.fst).filter
      (fun url => (lookup Prod.fst url (desiredRelays cfg)).isNone)).filter
        (fun value => (U.parse value).isSome) =
      missing Prod.fst s.known (parseable U (desiredRelays cfg)) := by
    unfold missing
    rw [List.filter_filter]
    refine List.filter_congr (fun r hr => ?_)
    obtain ⟨entry, he, rfl⟩ := List.mem_map.1 hr
    rw [h.parses he, Bool.true_and, collectGet_eq_lookup hnew, parseable,
      lookup_filter (distinct_desiredRelays cfg)]
    cases hfound : lookup Prod.fst entry.1 (desiredRelays cfg) with
    | none => rfl
    | some found =>
      rw [Option.filter_some, (mem_of_lookup hfound).2, if_pos (h.parses he)]
  unfold reloadRelays
  rw [known_removed, known_inserted, hadded, hremoved]
  exact sync_perm_reverse h.distinct hnew

/-- The endpoint follows the configuration. A relay that is removed under one string is not wanted under
    another, since both are its printed form. -/
theorem installed_reloadRelays (h : s.Consistent) (hcfg : ∀ r ∈ cfg.relayStrings, Canonical U r)
    (url : U.RelayUrl) : (reloadRelays U s cfg).Installed url ↔ Named U cfg url := by
  unfold reloadRelays
  rw [installed_removed, installed_inserted, named_iff, h.installed]
  constructor
  · rintro ⟨⟨entry, he, hparse⟩ | ⟨entry, he, hparse⟩, hkept⟩
    · -- what is known and no longer wanted is among the removed strings
      by_contra hunwanted
      refine hkept entry.1 (List.mem_filter.2 ⟨List.mem_map_of_mem he, ?_⟩) hparse
      rw [Option.isNone_iff_eq_none, lookup_eq_none]
      intro wanted hwanted hkey
      exact hunwanted ⟨wanted, hwanted, hkey ▸ hparse⟩
    · exact ⟨entry, (List.mem_filter.1 he).1, hparse⟩
  · rintro ⟨wanted, hwanted, hparse⟩
    have hstring := (mem_keys_desiredRelays cfg wanted.1).1 (List.mem_map_of_mem hwanted)
    constructor
    · by_cases hknown : lookup Prod.fst wanted.1 s.known = some wanted
      · exact .inl ⟨wanted, (mem_of_lookup hknown).1, hparse⟩
      · exact .inr ⟨wanted, List.mem_filter.2 ⟨hwanted, by simpa using hknown⟩, hparse⟩
    · -- a removed string for the same URL would be its printed form, which is wanted
      intro value hvalue hsame
      obtain ⟨hknown, hgone⟩ := List.mem_filter.1 hvalue
      obtain ⟨entry, he, rfl⟩ := List.mem_map.1 hknown
      obtain ⟨url', hparse', hprint⟩ := h.canonical entry he
      rw [hsame] at hparse'
      rw [← Option.some.inj hparse', hcfg _ hstring url hparse] at hprint
      rw [Option.isNone_iff_eq_none, lookup_eq_none] at hgone
      exact hgone wanted hwanted hprint

theorem consistent_reloadRelays (h : s.Consistent) (hcfg : ∀ r ∈ cfg.relayStrings, Canonical U r) :
    (reloadRelays U s cfg).Consistent := by
  have hknown : (reloadRelays U s cfg).known.Perm _ := known_reloadRelays h
  refine ⟨?_, ?_, ?_⟩
  · exact Distinct.perm ((distinct_desiredRelays cfg).sublist List.filter_sublist) hknown.symm
  · intro entry he
    obtain ⟨hwanted, url, hparse⟩ := mem_parseable.1 (hknown.mem_iff.1 he)
    have hstring := (mem_keys_desiredRelays cfg entry.1).1 (List.mem_map_of_mem hwanted)
    exact ⟨url, hparse, hcfg _ hstring url hparse⟩
  · intro url
    rw [installed_reloadRelays h hcfg, named_iff]
    simp only [hknown.mem_iff, mem_parseable]
    constructor
    · rintro ⟨entry, he, hparse⟩
      exact ⟨entry, ⟨he, url, hparse⟩, hparse⟩
    · rintro ⟨entry, ⟨he, _⟩, hparse⟩
      exact ⟨entry, he, hparse⟩

/-- A reload of the configuration that the map already follows does nothing. -/
theorem reloadRelays_of_known (hknown : s.known.Perm (parseable U (desiredRelays cfg))) :
    reloadRelays U s cfg = s := by
  have hdistinct : Distinct Prod.fst s.known :=
    Distinct.perm ((distinct_desiredRelays cfg).sublist List.filter_sublist) hknown.symm
  -- strings that are no URLs come up at every reload, and are skipped
  have hadded : ∀ entries : List (String × RelayRuntimeConfig),
      (∀ entry ∈ entries, U.parse entry.1 = none) → entries.foldl (insertRelay U) s = s := by
    intro entries hnone
    induction entries with
    | nil => rfl
    | cons entry entries ih =>
      rw [List.forall_mem_cons] at hnone
      rw [List.foldl_cons, insertRelay, hnone.1]
      exact ih hnone.2
  have hremoved : (s.known.map Prod.fst).filter
      (fun url => (lookup Prod.fst url (desiredRelays cfg)).isNone) = [] := by
    rw [List.filter_eq_nil_iff]
    intro r hr hgone
    obtain ⟨entry, he, rfl⟩ := List.mem_map.1 hr
    rw [Option.isNone_iff_eq_none, lookup_eq_none] at hgone
    exact hgone entry (mem_parseable.1 (hknown.mem_iff.1 he)).1 rfl
  unfold reloadRelays
  dsimp only
  rw [hremoved, hadded _ ?_]
  · rfl
  · intro entry he
    obtain ⟨hwanted, hdiffers⟩ := List.mem_filter.1 he
    by_contra hparse
    obtain ⟨url, hparse⟩ := Option.ne_none_iff_exists'.1 hparse
    have hmem := hknown.mem_iff.2 (mem_parseable.2 ⟨hwanted, url, hparse⟩)
    simp [(lookup_eq_some hdistinct).2 ⟨hmem, rfl⟩] at hdiffers

/-! ## The start -/

/-- What `run` has collected from the strings that it has seen. -/
structure Collects (seen : List String) (relays : Collected U) : Prop where
  distinct : Distinct Prod.fst relays
  canonical : ∀ p ∈ relays, U.parse p.1 = some p.2.1 ∧ U.print p.2.1 = p.1
  named : ∀ url, (∃ p ∈ relays, p.2.1 = url) ↔ ∃ r ∈ seen, U.parse r = some url

variable {seen : List String} {relays relays' : Collected U}
variable {url : U.RelayUrl}

theorem exists_seen_append {r : String} :
    (∃ r' ∈ seen ++ [r], U.parse r' = some url) ↔
      (∃ r' ∈ seen, U.parse r' = some url) ∨ U.parse r = some url := by
  simp [or_and_right, exists_or]

/-- Two entries under one string are for one URL, so that replacing loses none. -/
theorem Collects.upsert (h : Collects seen relays) {r : String} (hparse : U.parse r = some url)
    (runtime : RelayRuntimeConfig) :
    Collects (seen ++ [r]) (Keyed.upsert Prod.fst (U.print url, url, runtime) relays) := by
  refine ⟨h.distinct.upsert, ?_, ?_⟩
  · intro p hp
    rcases (mem_upsert h.distinct).1 hp with rfl | ⟨hold, _⟩
    · exact ⟨U.parse_print url, rfl⟩
    · exact h.canonical p hold
  · intro url'
    rw [exists_seen_append, ← h.named, hparse, Option.some.injEq]
    simp only [mem_upsert h.distinct]
    constructor
    · rintro ⟨p, rfl | ⟨hp, _⟩, hurl⟩
      · exact .inr hurl
      · exact .inl ⟨p, hp, hurl⟩
    · rintro (⟨p, hp, hurl⟩ | hurl)
      · by_cases hkey : p.1 = U.print url
        · have hsame : some p.2.1 = some url := by
            rw [← (h.canonical p hp).1, hkey, U.parse_print]
          exact ⟨_, .inl rfl, (Option.some.inj hsame).symm.trans hurl⟩
        · exact ⟨p, .inr ⟨hp, hkey⟩, hurl⟩
      · exact ⟨_, .inl rfl, hurl⟩

theorem Collects.edgeRelay (h : Collects seen relays) {name r : String}
    (hstep : collectEdgeRelay U name relays r = .ok relays') : Collects (seen ++ [r]) relays' := by
  obtain ⟨url, hparse, hstep⟩ := of_bind hstep
  rw [okOr_eq_ok] at hparse
  rw [pure_eq_ok] at hstep
  subst hstep
  cases hfound : lookup Prod.fst (U.print url) relays with
  | none => exact h.upsert hparse defaultRuntime
  | some p =>
    -- the entry that is there stays, and it is for the same URL
    obtain ⟨hp, hkey⟩ := mem_of_lookup hfound
    have hurl : some p.2.1 = some url := by rw [← (h.canonical p hp).1, hkey, U.parse_print]
    refine ⟨h.distinct, h.canonical, fun url' => ?_⟩
    rw [Option.isSome_some, if_pos rfl, h.named, exists_seen_append]
    refine ⟨.inl, ?_⟩
    rintro (hseen | hparse')
    · exact hseen
    · rw [hparse] at hparse'
      exact (h.named url').1 ⟨p, hp, Option.some.inj (hurl.trans hparse')⟩

theorem Collects.controlRelay (h : Collects seen relays) {credential : String} {relay : RelayInfo}
    (hcanonical : Canonical U relay.url)
    (hstep : collectControlRelay U credential relays relay = .ok relays') :
    Collects (seen ++ [relay.url]) relays' := by
  obtain ⟨url, hparse, hstep⟩ := of_bind hstep
  rw [okOr_eq_ok] at hparse
  rw [pure_eq_ok] at hstep
  have hnext := h.upsert hparse (relay.qadPort, some credential)
  rwa [hcanonical url hparse, hstep] at hnext

/-- What holds of nothing, and is kept by each relay of an edge and then by each of Control, holds of
    what `run` collects. -/
theorem startRelays_collects {P : List (String × RelayRuntimeConfig) → Collected U → Prop}
    (hnil : P [] [])
    (hedge : ∀ seen relays relays' name, ∀ r ∈ cfg.relayStrings,
      P (seen.map (fun url => (url, defaultRuntime))) relays →
      collectEdgeRelay U name relays r = .ok relays' →
      P ((seen ++ [r]).map (fun url => (url, defaultRuntime))) relays')
    (hcontrol : ∀ seen relays relays' credential, ∀ relay : RelayInfo, relay.url ∈ cfg.controlRelays →
      P seen relays → collectControlRelay U credential relays relay = .ok relays' →
      P (seen ++ [(relay.url, relay.qadPort, some credential)]) relays')
    (h : startRelays U cfg = .ok s) :
    ∃ relays, P cfg.relayEntries relays ∧
      s = ⟨relays.map (fun p => (p.1, p.2.2)), collect Prod.fst (relays.map Prod.snd)⟩ := by
  obtain ⟨_, _, h⟩ := of_bind h
  obtain ⟨edgeRelays, hedges, h⟩ := of_bind h
  have hstart : P ((cfg.edges.flatMap EdgeCfg.relays).map (fun url => (url, defaultRuntime)))
      edgeRelays := by
    refine foldAll_induct
      (fun edges relays =>
        P ((edges.flatMap EdgeCfg.relays).map (fun url => (url, defaultRuntime))) relays)
      ?_ [] hnil hedges
    intro edges e he relays relays' hP hstep
    rw [List.flatMap_append, List.flatMap_singleton]
    refine foldAll_induct
      (fun seen relays => P (seen.map (fun url => (url, defaultRuntime))) relays) ?_ _ hP hstep
    intro seen r hr relays relays' hP hstep
    exact hedge seen relays relays' e.name r
      (List.mem_append_left _ (List.mem_flatMap.2 ⟨e, he, hr⟩)) hP hstep
  unfold Config.controlRelays at hcontrol
  unfold Config.relayEntries
  cases hcfg : cfg.control with
  | none =>
    simp only [hcfg, pure_bind, pure_eq_ok] at h
    exact ⟨edgeRelays, by simpa using hstart, h.symm⟩
  | some control =>
    rw [hcfg] at h hcontrol
    obtain ⟨credential, hcredential, h⟩ := of_bind h
    obtain ⟨relays, hrelays, h⟩ := of_bind h
    rw [okOr_eq_ok] at hcredential
    rw [pure_eq_ok] at h
    dsimp only
    rw [hcredential]
    refine ⟨relays, foldAll_induct (fun seen relays =>
      P ((cfg.edges.flatMap EdgeCfg.relays).map (fun url => (url, defaultRuntime)) ++
        seen.map (fun relay : RelayInfo => (relay.url, relay.qadPort, some credential))) relays)
      ?_ [] ?_ hrelays, h.symm⟩
    · intro seen relay hrelay relays relays' hP hstep
      rw [List.map_append, ← List.append_assoc]
      exact hcontrol _ relays relays' credential relay (List.mem_map_of_mem hrelay) hP hstep
    · simpa using hstart

theorem named_relayEntries (cfg : Config) (url : U.RelayUrl) :
    Named U cfg url ↔ ∃ r ∈ cfg.relayEntries.map Prod.fst, U.parse r = some url := by
  unfold Named Config.relayEntries Config.relayStrings Config.controlRelays
  cases cfg.control <;> simp

/-- The start: the map and the endpoint have the relays of the configuration. -/
theorem consistent_startRelays (hcontrol : ∀ r ∈ cfg.controlRelays, Canonical U r)
    (h : startRelays U cfg = .ok s) : s.Consistent ∧ ∀ url, s.Installed url ↔ Named U cfg url := by
  have hcollects : ∃ relays, Collects (cfg.relayEntries.map Prod.fst) relays ∧
      s = ⟨relays.map (fun p => (p.1, p.2.2)), collect Prod.fst (relays.map Prod.snd)⟩ := by
    refine startRelays_collects (P := fun seen relays => Collects (seen.map Prod.fst) relays) ?_ ?_ ?_ h
    · exact ⟨List.nodup_nil, by simp, by simp⟩
    · intro seen relays relays' name r _ hcollects hstep
      simpa using hcollects.edgeRelay hstep
    · intro seen relays relays' credential relay hrelay hcollects hstep
      simpa using hcollects.controlRelay (hcontrol _ hrelay) hstep
  obtain ⟨relays, hcollects, rfl⟩ := hcollects
  have hinstalled : ∀ url, url ∈ (collect Prod.fst (relays.map Prod.snd)).map Prod.fst ↔
      ∃ p ∈ relays, p.2.1 = url := by
    intro url
    rw [collect, mem_keys_foldl_upsert]
    simp
  refine ⟨⟨?_, ?_, ?_⟩, ?_⟩
  · rw [Distinct, List.map_map]
    exact hcollects.distinct
  · intro entry he
    obtain ⟨p, hp, rfl⟩ := List.mem_map.1 he
    exact ⟨p.2.1, hcollects.canonical p hp⟩
  · intro url
    rw [Relays.Installed, hinstalled]
    constructor
    · rintro ⟨p, hp, rfl⟩
      exact ⟨(p.1, p.2.2), List.mem_map_of_mem hp, (hcollects.canonical p hp).1⟩
    · rintro ⟨entry, he, hparse⟩
      obtain ⟨p, hp, rfl⟩ := List.mem_map.1 he
      rw [(hcollects.canonical p hp).1] at hparse
      exact ⟨p, hp, Option.some.inj hparse⟩
  · intro url
    rw [Relays.Installed, hinstalled, hcollects.named, named_relayEntries]

/-- What `run` has collected is what a reload makes of the entries that it has seen. -/
structure Tracks (seen : List (String × RelayRuntimeConfig)) (relays : Collected U) : Prop where
  known : relays.map (fun p => (p.1, p.2.2)) = collect Prod.fst seen
  parses : ∀ entry ∈ seen, (U.parse entry.1).isSome

variable {entries : List (String × RelayRuntimeConfig)}

theorem Tracks.append (h : Tracks entries relays) {r : String} (hparse : U.parse r = some url)
    {runtime : RelayRuntimeConfig}
    (hknown : relays'.map (fun p => (p.1, p.2.2)) = upsert Prod.fst (r, runtime) (relays.map (fun p => (p.1, p.2.2)))) :
    Tracks (entries ++ [(r, runtime)]) relays' := by
  refine ⟨?_, ?_⟩
  · rw [hknown, h.known, collect, collect, List.foldl_append]
    rfl
  · intro entry he
    rcases List.mem_append.1 he with hseen | hlast
    · exact h.parses entry hseen
    · rw [List.mem_singleton.1 hlast, hparse]
      rfl

/-- An edge's relay that is there already was put there for an edge, with the same configuration. -/
theorem Tracks.edgeRelay {seen : List String}
    (h : Tracks (seen.map (fun url => (url, defaultRuntime))) relays) {name r : String}
    (hcanonical : Canonical U r) (hstep : collectEdgeRelay U name relays r = .ok relays') :
    Tracks ((seen ++ [r]).map (fun url => (url, defaultRuntime))) relays' := by
  obtain ⟨url, hparse, hstep⟩ := of_bind hstep
  rw [okOr_eq_ok] at hparse
  rw [pure_eq_ok, hcanonical url hparse] at hstep
  rw [List.map_append]
  refine h.append hparse ?_
  subst hstep
  cases hfound : lookup Prod.fst r relays with
  | none => exact map_upsert (fun _ _ => rfl) rfl
  | some p =>
    obtain ⟨hp, rfl⟩ := mem_of_lookup hfound
    have hmem : (p.1, p.2.2) ∈ collect Prod.fst (seen.map (fun url => (url, defaultRuntime))) := by
      rw [← h.known]
      exact List.mem_map_of_mem hp
    obtain ⟨r, _, hentry⟩ := List.mem_map.1 (mem_of_mem_collect hmem)
    rw [Option.isSome_some, if_pos rfl, h.known]
    rw [← (Prod.mk.inj hentry).2] at hmem
    exact (upsert_eq_self ((lookup_eq_some (distinct_collect Prod.fst _)).2 ⟨hmem, rfl⟩)).symm

theorem Tracks.controlRelay (h : Tracks entries relays) {credential : String} {relay : RelayInfo}
    (hstep : collectControlRelay U credential relays relay = .ok relays') :
    Tracks (entries ++ [(relay.url, relay.qadPort, some credential)]) relays' := by
  obtain ⟨url, hparse, hstep⟩ := of_bind hstep
  rw [okOr_eq_ok] at hparse
  rw [pure_eq_ok] at hstep
  subst hstep
  exact h.append hparse (map_upsert (fun _ _ => rfl) rfl)

/-- When every string is in its printed form, the start fills the map as a reload does. -/
theorem known_startRelays (hcfg : ∀ r ∈ cfg.relayStrings, Canonical U r)
    (h : startRelays U cfg = .ok s) : s.known = parseable U (desiredRelays cfg) := by
  obtain ⟨relays, htracks, rfl⟩ := startRelays_collects (P := Tracks) ⟨rfl, by simp⟩
    (fun _ _ _ _ r hr htracks hstep => htracks.edgeRelay (hcfg r hr) hstep)
    (fun _ _ _ _ _ _ htracks hstep => htracks.controlRelay hstep) h
  rw [htracks.known, ← desiredRelays_eq, parseable, eq_comm, List.filter_eq_self]
  intro entry he
  rw [desiredRelays_eq] at he
  exact htracks.parses entry (mem_of_mem_collect he)

/-! ## Runs -/

/-- The daemon after its start and a sequence of reloads, and the configuration that it last read. -/
structure Relays.Follows (s : Relays U) (cfg : Config) : Prop where
  consistent : s.Consistent
  installed : ∀ url, s.Installed url ↔ Named U cfg url
  settled : (∀ r ∈ cfg.relayStrings, Canonical U r) → s.known.Perm (parseable U (desiredRelays cfg))

theorem follows_startRelays (hcontrol : ∀ r ∈ cfg.controlRelays, Canonical U r)
    (h : startRelays U cfg = .ok s) : s.Follows cfg := by
  obtain ⟨hconsistent, hinstalled⟩ := consistent_startRelays hcontrol h
  refine ⟨hconsistent, hinstalled, fun hcfg => ?_⟩
  rw [known_startRelays hcfg h]

theorem follows_reloadRelays {old : Config} (h : s.Follows old)
    (hcfg : ∀ r ∈ cfg.relayStrings, Canonical U r) : (reloadRelays U s cfg).Follows cfg :=
  ⟨consistent_reloadRelays h.consistent hcfg, installed_reloadRelays h.consistent hcfg,
    fun _ => known_reloadRelays h.consistent⟩

theorem follows_reloads {old : Config} {later : List Config} (h : s.Follows old)
    (hlater : ∀ cfg ∈ later, ∀ r ∈ cfg.relayStrings, Canonical U r) :
    (later.foldl (reloadRelays U) s).Follows ((old :: later).getLast (List.cons_ne_nil _ _)) := by
  induction later generalizing s old with
  | nil => exact h
  | cons cfg later ih =>
    rw [List.forall_mem_cons] at hlater
    rw [List.foldl_cons, List.getLast_cons (List.cons_ne_nil _ _)]
    exact ih (follows_reloadRelays h hlater.1) hlater.2

/-- **The endpoint has the relays of the last configuration**: after the start and any sequence of
    reloads of configurations whose relays are spelled as their URLs print, the relays of the endpoint
    are those that the last configuration names, and a reload of that configuration does nothing. At the
    start the spelling matters for the relays of Control only. -/
theorem reload_installs_configured_relays (config₀ : Config) (later : List Config) (s₀ : Relays U)
    (hstart : startRelays U config₀ = .ok s₀)
    (hcontrol : ∀ r ∈ config₀.controlRelays, Canonical U r)
    (hlater : ∀ cfg ∈ later, ∀ r ∈ cfg.relayStrings, Canonical U r) :
    let s := later.foldl (reloadRelays U) s₀
    let last := (config₀ :: later).getLast (List.cons_ne_nil _ _)
    (∀ url, s.Installed url ↔ Named U last url) ∧
    ((∀ r ∈ last.relayStrings, Canonical U r) → reloadRelays U s last = s) := by
  have hfollows := follows_reloads (follows_startRelays hcontrol hstart) hlater
  exact ⟨hfollows.installed, fun hcanonical => reloadRelays_of_known (hfollows.settled hcanonical)⟩

/-- The URLs of one host, with and without the path that a URL of a host has. -/
abbrev hostUrls : RelayUrls where
  RelayUrl := Unit
  decEq := inferInstance
  parse r := if r = "https://h" ∨ r = "https://h/" then some () else none
  print _ := "https://h/"
  parse_print _ := rfl

def oneRelay (r : String) : Config := ⟨1, [⟨"edge", "edge-id", [r], false⟩], none⟩

/-- A configuration with the relay in its printed form, reloaded as it is. -/
theorem printed_relay_stays_installed :
    (reloadRelays hostUrls ⟨[("https://h/", some 7842, none)], [((), some 7842, none)]⟩
      (oneRelay "https://h/")).Installed () := by
  have hcanonical : ∀ cfg ∈ [oneRelay "https://h/"], ∀ r ∈ cfg.relayStrings, Canonical hostUrls r := by
    intro cfg hcfg r hr url _
    rw [List.mem_singleton.1 hcfg] at hr
    exact (List.mem_singleton.1 hr).symm
  refine ((reload_installs_configured_relays (oneRelay "https://h/") [oneRelay "https://h/"] _ rfl
    (fun r hr => absurd hr List.not_mem_nil) hcanonical).1 ()).2 ?_
  exact ⟨"https://h/", List.mem_singleton.2 rfl, rfl⟩

/-- An edge's relay that is configured without the path is installed at the start. The reload of the same
    configuration installs it again, under the string of the configuration, and then removes it, under
    the string that it printed at the start. -/
theorem reload_removes_configured_relay :
    ∃ s₀, startRelays hostUrls (oneRelay "https://h") = .ok s₀ ∧
      s₀.Installed () ∧ Named hostUrls (oneRelay "https://h") () ∧
      ¬ (reloadRelays hostUrls s₀ (oneRelay "https://h")).Installed () :=
  ⟨⟨[("https://h/", some 7842, none)], [((), some 7842, none)]⟩, rfl, by decide,
    ⟨"https://h", List.mem_singleton.2 rfl, rfl⟩, by decide⟩

end AgentScale.Client
