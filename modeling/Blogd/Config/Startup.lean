import Blogd.Config.Load
import Blogd.Content.Returned
import Blogd.Server.Sample

/-! # Starting with a configuration

Compiling the content divides by `per_page`, and every request compiles `reload_content_query` as
a pattern. No directive is needed for a text to be accepted, and no value is refused. So the first
is safe if the last `per-page` line gives a number that does not end in 32 zero bits, and the
second if there is a line for it at all.
-/

namespace Blogd

def BlogdOptions.contentOptions (options : BlogdOptions) : ContentOptions :=
  ⟨options.perPage, options.markdownCompile⟩

/-! ## Safety -/

/-- The options can be used: nothing is divided by zero, and no NULL is compiled as a pattern. -/
structure SafeToRun (options : BlogdOptions) : Prop where
  perPage : 1 ≤ options.perPage
  reloadContentQuery : options.reloadContentQuery ≠ none
  startup : ∀ ext : External, ext.PcreSpec → ∀ dir commands commands',
    initContents ext options.contentOptions dir commands ≠ .error .division commands'
  request : ∀ (env : Env) (urlQuery : Bytes) (w : World),
    w.server.reloadContentQuery = options.reloadContentQuery →
    reloadContent env urlQuery w ≠ .error .nullPointer w

/-- A query that is there is compiled before anything can go wrong. -/
theorem reloadContent_ne_null (env : Env) (urlQuery : Bytes) {w : World}
    (hquery : w.server.reloadContentQuery ≠ none) :
    reloadContent env urlQuery w ≠ .error .nullPointer w := by
  obtain ⟨pattern, hpattern⟩ := Option.ne_none_iff_exists'.mp hquery
  cases hmatch : pregMatch env.toExternal pattern urlQuery with
  | error e =>
      have hfault : e ≠ .nullPointer := by
        rintro rfl
        unfold pregMatch at hmatch
        split at hmatch
        next => cases hmatch
        next =>
          split at hmatch
          next => cases hmatch
          next => split at hmatch <;> cases hmatch
      intro hnull
      simp only [reloadContent, bind_apply, get_apply, hpattern, hmatch, lift_error,
        EStateM.Result.error.injEq] at hnull
      exact hfault hnull.1
  | ok result =>
      cases result with
      | none =>
          simp only [reloadContent, bind_apply, get_apply, hpattern, hmatch, lift_ok, pure_apply]
          exact fun hnull => by cases hnull
      | some found =>
          intro hnull
          simp only [reloadContent, bind_apply, get_apply, hpattern, hmatch, lift_ok, modify_apply,
            runInitContents] at hnull
          -- by now the reload is logged, so the state cannot be the one before
          have hlog : w.log = w.log ++ [.reload] := by
            cases hinit : initContents env.toExternal (w.record .reload).server.contentOptions
                (w.record .reload).server.contentDir [] with
            | ok a commands =>
                rw [hinit] at hnull
                cases hnull
            | error e commands =>
                rw [hinit] at hnull
                simp only [bind_apply, set_apply, throw_apply, EStateM.Result.error.injEq] at hnull
                exact (congrArg World.log hnull.2).symm
          exact absurd (congrArg List.length hlog) (by simp)

theorem safeToRun_iff {options : BlogdOptions} :
    SafeToRun options ↔ options.perPage ≠ 0 ∧ options.reloadContentQuery ≠ none := by
  constructor
  · intro hsafe
    exact ⟨Nat.one_le_iff_ne_zero.mp hsafe.perPage, hsafe.reloadContentQuery⟩
  · rintro ⟨hper, hquery⟩
    refine ⟨Nat.one_le_iff_ne_zero.mpr hper, hquery, ?_, ?_⟩
    · intro ext hspec dir commands commands' hdivision
      rcases initContents_raises hspec options.contentOptions dir _ _ _ hdivision with
        hfault | ⟨-, hzero⟩
      · cases hfault
      · exact hper hzero
    · intro env urlQuery w hsame
      exact reloadContent_ne_null env urlQuery (hsame ▸ hquery)

/-- An accepted text is safe if the last `per-page` line, counting those of included files, gives a
number that is not zero in 32 bits, and some line gives a query. -/
theorem loaded_safe_iff {σ : Type} {env : RedisConfig σ} {depth : Nat} {text : Bytes} {rest : σ}
    {st : Loading BlogdOptions σ}
    (hload : loadServerConfigFromString env BlogdOptions.assign depth text
      ⟨initServerConfig, rest⟩ = .ok st) :
    SafeToRun st.options ↔
      (∃ value, (valuesOf .perPage (settingsOf env depth text rest)).getLast? = some value ∧
        unsignedInt (memtoll value) ≠ 0) ∧
      valuesOf .reloadContentQuery (settingsOf env depth text rest) ≠ [] := by
  have hper := get_applySettings initServerConfig (settingsOf env depth text rest) .perPage
  have hquery := get_applySettings initServerConfig (settingsOf env depth text rest)
    .reloadContentQuery
  rw [← options_of_load hload] at hper hquery
  rw [safeToRun_iff]
  refine and_congr ?_ ?_
  · cases hlast : (valuesOf .perPage (settingsOf env depth text rest)).getLast? with
    | none =>
        rw [hlast] at hper
        have hzero : st.options.perPage = 0 := OptionValue.number.inj hper
        simp [hzero]
    | some value =>
        rw [hlast] at hper
        have hvalue : st.options.perPage = unsignedInt (memtoll value) :=
          OptionValue.number.inj hper
        simp [hvalue]
  · cases hlast : (valuesOf .reloadContentQuery (settingsOf env depth text rest)).getLast? with
    | none =>
        rw [hlast] at hquery
        have hnone : st.options.reloadContentQuery = none := OptionValue.text.inj hquery
        simp [hnone, List.getLast?_eq_none_iff.mp hlast]
    | some value =>
        rw [hlast] at hquery
        have hvalue : st.options.reloadContentQuery = some value := OptionValue.text.inj hquery
        have hne := List.ne_nil_of_mem (List.mem_of_getLast? hlast)
        simp [hvalue, hne]

/-! ## The shipped lines and an empty text -/

/-- A configuration without directives of Redis. -/
def plainConfig : RedisConfig Unit where
  directive _ _ := .error badDirective
  fopen _ _ := none
  clusterSlave _ := false

/-- The lines of the blog in the configuration that is shipped. -/
def shippedLines : Bytes :=
  ascii "content-dir \"../contents\"\npublic-dir \"../public\"\nper-page 10\n" ++
    ascii "reload-content-query \"secret-reload\"\nmarkdown-compile 0\n"

def shippedOptions : BlogdOptions :=
  ⟨ascii "../contents", ascii "../public", some (ascii "secret-reload"), 10, 0⟩

theorem load_shippedLines :
    loadServerConfigFromString plainConfig BlogdOptions.assign 0 shippedLines
      ⟨initServerConfig, ()⟩ = .ok ⟨shippedOptions, ()⟩ := by
  decide +kernel

theorem loaded_safe_shipped :
    ∃ st, loadServerConfigFromString plainConfig BlogdOptions.assign 0 shippedLines
        ⟨initServerConfig, ()⟩ = .ok st ∧ SafeToRun st.options := by
  have hvalues : valuesOf .perPage (settingsOf plainConfig 0 shippedLines ()) = [ascii "10"] ∧
      valuesOf .reloadContentQuery (settingsOf plainConfig 0 shippedLines ()) ≠ [] := by
    decide +kernel
  refine ⟨_, load_shippedLines, (loaded_safe_iff load_shippedLines).mpr ⟨⟨ascii "10", ?_, ?_⟩, ?_⟩⟩
  · rw [hvalues.1]
    rfl
  · decide +kernel
  · exact hvalues.2

/-- The empty text is accepted. The first post is divided by zero at the start, and a request
without it compiles NULL. -/
theorem empty_config_unsafe :
    loadServerConfigFromString plainConfig BlogdOptions.assign 0 [] ⟨initServerConfig, ()⟩ =
        .ok ⟨initServerConfig, ()⟩ ∧
      ¬ SafeToRun initServerConfig ∧
      (∃ commands, initContents sampleExternal initServerConfig.contentOptions
        (sampleDir [samplePost]) [] = .error .division commands) ∧
      ∃ w : World, w.server.reloadContentQuery = initServerConfig.reloadContentQuery ∧
        reloadContent sampleEnv (ascii "a") w = .error .nullPointer w := by
  refine ⟨rfl, ?_, ?_, ?_⟩
  · intro hsafe
    exact hsafe.reloadContentQuery rfl
  · exact initContents_division sampleExternal_pcreSpec rfl rfl rfl []
  · exact ⟨⟨{ sampleServer .empty [] fun _ => none with reloadContentQuery := none },
      createClient 0, []⟩, rfl, rfl⟩

end Blogd
