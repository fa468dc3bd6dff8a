import Telemetry.Agent.Client
import Telemetry.Proofs.Checks
import Telemetry.Server.Config
/-!
What the settings come to. An agent and a server that are given the same key sign with the same key,
and an agent that is given a host posts to the route for lists.
-/

namespace Telemetry

/-! ### Keys -/

namespace Config

def givenKey? (file : Option File) : Option Toml.Value :=
  (file.bind fun f => f.bytes.bind Toml.ofBytes?).bind fun entries => entries.lookup "hash_key"

/-- The key that a program signs with: that of the environment goes before that of the file. -/
def effectiveKey? (file : Option File) (env : Environment) : Option String :=
  Signature.keyOf (env.optionalText "KEY" ((givenKey? file).bind text?))

theorem setting?_optional {name : String} {entries : Toml.Entries} {key : Option String}
    (h : setting? (Option.map some ∘ text?) none name entries = some key) :
    key = (entries.lookup name).bind text? := by
  unfold setting? at h
  cases hv : entries.lookup name with
  | none =>
    rw [hv] at h
    exact (Option.some.inj h).symm
  | some v =>
    rw [hv] at h
    obtain ⟨t, ht, rfl⟩ := Option.map_eq_some_iff.mp h
    exact ht.symm

theorem key_of_ofFile {α : Type} {read : Toml.Entries → Option α} {standard c : α} {file : Option File}
    {key : α → Option String} (absent : key standard = none)
    (reads : ∀ entries c, read entries = some c → key c = (entries.lookup "hash_key").bind text?)
    (h : ofFile read standard file = .ok c) : key c = (givenKey? file).bind text? := by
  cases file with
  | none =>
    obtain rfl := Except.ok.inj h
    exact absent
  | some f =>
    rw [ofFile] at h
    cases hr : (f.bytes.bind Toml.ofBytes?).bind read with
    | none =>
      rw [hr] at h
      cases h
    | some d =>
      rw [hr] at h
      obtain rfl := Except.ok.inj h
      obtain ⟨entries, he, hc⟩ := Option.bind_eq_some_iff.mp hr
      rw [givenKey?, Option.bind_some, he]
      exact reads entries d hc

end Config

namespace Agent.Config

open Telemetry.Config

theorem key_of_ofEntries {entries : Toml.Entries} {c : Config} (h : ofEntries? entries = some c) :
    c.hashKey = (entries.lookup "hash_key").bind text? := by
  simp only [ofEntries?, Option.bind_eq_bind, Option.bind_eq_some_iff, Option.pure_def,
    Option.some.injEq] at h
  obtain ⟨_, -, _, -, _, -, _, -, _, -, key, hk, rfl⟩ := h
  exact setting?_optional hk

theorem key_of_checked {c a : Config} (h : c.checked = .ok a) : a.hashKey = c.hashKey := by
  unfold checked at h
  grind

theorem key_of_resolve {file : Option File} {env : Environment} {a : Config}
    (h : resolve file env = .ok a) : Signature.keyOf a.hashKey = effectiveKey? file env := by
  simp only [resolve, override, bind_eq_ok_iff, pure_eq_ok_iff] at h
  obtain ⟨c, hc, _, ⟨_, -, _, -, rfl⟩, checked⟩ := h
  rw [key_of_checked checked, effectiveKey?, key_of_ofFile rfl (fun _ _ => key_of_ofEntries) hc]

end Agent.Config

namespace Server.Config

open Telemetry.Config

theorem key_of_ofEntries {entries : Toml.Entries} {c : Config} (h : ofEntries? entries = some c) :
    c.hashKey = (entries.lookup "hash_key").bind text? := by
  simp only [ofEntries?, Option.bind_eq_bind, Option.bind_eq_some_iff, Option.pure_def,
    Option.some.injEq] at h
  obtain ⟨_, -, key, hk, _, -, rfl⟩ := h
  exact setting?_optional hk

theorem key_of_resolve {file : Option File} {env : Environment} {s : Config}
    (h : resolve file env = .ok s) : s.signingKey = effectiveKey? file env := by
  simp only [resolve, override, bind_eq_ok_iff, pure_eq_ok_iff] at h
  obtain ⟨c, hc, _, -, _, -, rfl⟩ := h
  rw [signingKey, effectiveKey?, key_of_ofFile rfl (fun _ _ => key_of_ofEntries) hc]

end Server.Config

/-! ### Addresses -/

namespace Agent

theorem splitOnce?_of_absent {pattern cs : List Char} {c : Char} (hp : c ∈ pattern) (hc : c ∉ cs) :
    splitOnce? pattern cs = none := by
  induction cs with
  | nil => rw [splitOnce?, if_neg (List.ne_nil_of_mem hp)]
  | cons d cs ih =>
    obtain ⟨other, rest⟩ := not_or.mp (List.mem_cons.not.mp hc)
    have differs : pattern.isPrefixOf? (d :: cs) = none := by
      by_contra some
      obtain ⟨tail, ht⟩ := Option.ne_none_iff_exists'.mp some
      have := List.isPrefixOf?_eq_some_iff_append_eq.mp ht
      exact hc (this ▸ List.mem_append_left tail hp)
    rw [splitOnce?, differs]
    simp [ih rest]

theorem mem_of_mem_dropRight {α : Type} {p : α → Bool} {xs : List α} {x : α} (h : x ∈ dropRight p xs) :
    x ∈ xs := by
  rw [dropRight, List.mem_reverse] at h
  exact List.mem_reverse.mp ((List.dropWhile_sublist p).subset h)

theorem mem_of_mem_trimChars {cs : List Char} {c : Char} (h : c ∈ trimChars cs) : c ∈ cs :=
  (List.dropWhile_sublist isBlank).subset (mem_of_mem_dropRight h)

/-- An agent that is given a host, and no path on it, posts to the batch route. -/
theorem path_ofConfig {a : Config}
    (host : a.serverAddress.toList.all (fun c => c ≠ '/' && c ≠ '?' && c ≠ '#') = true)
    (backoff : Backoff) : Http.pathOfUrl (Client.ofConfig a backoff).url = "/updates" := by
  let address := dropRight (· = '/') (trimChars a.serverAddress.toList)
  have plain : ∀ c ∈ address, (c ≠ '/' && c ≠ '?' && c ≠ '#') = true := fun c hc =>
    List.all_eq_true.mp host c (mem_of_mem_trimChars (mem_of_mem_dropRight hc))
  have noScheme : splitOnce? [':', '/', '/'] address = none :=
    splitOnce?_of_absent (c := '/') (by decide) fun hc => by simpa using plain _ hc
  have url : (Client.ofConfig a backoff).url.toList =
      ['h', 't', 't', 'p', ':', '/', '/'] ++ (address ++ "/updates".toList) := by
    show (a.baseUrl ++ "/updates").toList = _
    rw [Config.baseUrl]
    simp only [noScheme, address]
    simp
  have scheme : splitOnce? [':', '/', '/'] (Client.ofConfig a backoff).url.toList =
      some (['h', 't', 't', 'p'], address ++ "/updates".toList) := by
    rw [url]
    simp [splitOnce?, List.isPrefixOf?]
  have rest : (address ++ "/updates".toList).dropWhile (fun c => c ≠ '/' && c ≠ '?' && c ≠ '#') =
      "/updates".toList := by
    rw [List.dropWhile_append_of_pos plain]
    decide +kernel
  have path : Http.beforeQuery "/updates".toList = "/updates".toList := by decide +kernel
  rw [Http.pathOfUrl, scheme]
  simp only [Option.map_some, Option.getD_some, rest, path]
  decide +kernel

end Agent

end Telemetry
