import Adjudication.Config.Loading
import Adjudication.Proofs.Schema.Checks
import Adjudication.Proofs.Yaml.Overlay

/-!
The keys of settings. Each is a way of two names, into a section and to a value in it; what a table says at that way is
checked by itself, and where it says nothing the standard value counts. Settings are no more than the values of their keys,
so tables that agree on a key give settings that agree on it.
-/

namespace Adjudication

open Schema

namespace Yaml

/-- The members of a table, as a schema sees them. -/
def shown (ms : Members) : List (Text.Wide × Yaml) := ms.map fun m => (.text m.1, m.2)

theorem member?_shown (name : String) (ms : Members) : member? name (shown ms) = Schema.lookup name ms := by
  induction ms with
  | nil => rfl
  | cons m rest ih =>
    rw [lookup_cons, ← ih]
    by_cases h : m.1 = name <;> simp [shown, member?, Schema.lookup, h]

/-- A record is read off a table. -/
theorem exists_table_of_record {α : Type} {name : String} {v : Yaml} {fields : List (Text.Wide × Yaml) → Checked Yaml α} {a : α}
    (h : record name v fields = .ok a) : ∃ ms, v = table ms ∧ fields (shown ms) = .ok a := by
  obtain ⟨members, hshape, hfields⟩ := record_eq_ok h
  cases v with
  | table ms =>
    obtain rfl : shown ms = members := Shape.table.inj hshape
    exact ⟨ms, rfl, hfields⟩
  | _ => cases hshape

end Yaml

namespace Settings

/-- The keys, in the order of their sections. -/
inductive Key where
  | command
  | timeout
  | model
  | seed
  | maxTokens
  | maxAttempts
  | backoff
  | backoffBase
  | requestTimeout
  | maxWorkers
  | baseUrl
  | apiKey
  | root
  deriving DecidableEq

namespace Key

/-- The names of a key's section and of the key in it. -/
def names : Key → String × String
  | command => ("analyzer", "command")
  | timeout => ("analyzer", "timeout")
  | model => ("judge", "model")
  | seed => ("judge", "seed")
  | maxTokens => ("judge", "max_tokens")
  | maxAttempts => ("judge", "max_attempts")
  | backoff => ("judge", "backoff")
  | backoffBase => ("judge", "backoff_base")
  | requestTimeout => ("judge", "request_timeout")
  | maxWorkers => ("judge", "max_workers")
  | baseUrl => ("judge", "base_url")
  | apiKey => ("judge", "api_key")
  | root => ("staging", "root")

/-- The way to a key. -/
def way (k : Key) : List String := [k.names.1, k.names.2]

/-- What kind of value a key has. -/
def Value : Key → Type
  | command => List String
  | timeout | backoffBase | requestTimeout => Float
  | model => String
  | seed => Int
  | maxTokens | maxAttempts | maxWorkers => Nat
  | backoff => Backoff
  | baseUrl | apiKey => Option String
  | root => Option Files.Path

/-- The value that settings have under a key. -/
def get (s : Settings Float) : (k : Key) → k.Value
  | command => s.analyzer.command
  | timeout => s.analyzer.timeout
  | model => s.judge.model
  | seed => s.judge.seed
  | maxTokens => s.judge.maxTokens
  | maxAttempts => s.judge.maxAttempts
  | backoff => s.judge.backoff
  | backoffBase => s.judge.backoffBase
  | requestTimeout => s.judge.requestTimeout
  | maxWorkers => s.judge.maxWorkers
  | baseUrl => s.judge.baseUrl
  | apiKey => s.judge.apiKey
  | root => s.staging.root

/-- How a value is checked that a table says under a key. -/
def check : (k : Key) → Yaml → Checked Yaml k.Value
  | command => AnalyzerConfig.checkCommand
  | timeout | requestTimeout => positiveNumber
  | model => plainText
  | seed => integer
  | maxTokens => fun v => Int.toNat <$> integerAbove 0 v
  | maxAttempts | maxWorkers => fun v => Int.toNat <$> integerFrom 1 v
  | backoff => among Backoff.named
  | backoffBase => nonnegativeNumber
  | baseUrl | apiKey => nullable plainText
  | root => nullable StagingConfig.checkPath

/-- A key has a value by what a table says under it: the value that passes, or the standard one where nothing is said. -/
def Reads (k : Key) (said : Option Yaml) (a : k.Value) : Prop :=
  match said with
  | some v => k.check v = .ok a
  | none => a = k.get standard

theorem Reads.unique {k : Key} {said : Option Yaml} {a b : k.Value} (ha : k.Reads said a) (hb : k.Reads said b) : a = b := by
  cases said with
  | none => exact ha.trans hb.symm
  | some v => exact Checked.ok.inj ((ha : k.check v = .ok a).symm.trans hb)

/-- Settings are the values of their keys. -/
theorem ext {s t : Settings Float} (h : ∀ k : Key, k.get s = k.get t) : s = t := by
  obtain ⟨⟨_, _⟩, ⟨_, _, _, _, _, _, _, _, _, _⟩, ⟨_⟩⟩ := s
  obtain ⟨⟨_, _⟩, ⟨_, _, _, _, _, _, _, _, _, _⟩, ⟨_⟩⟩ := t
  obtain rfl := h command
  obtain rfl := h timeout
  obtain rfl := h model
  obtain rfl := h seed
  obtain rfl := h maxTokens
  obtain rfl := h maxAttempts
  obtain rfl := h backoff
  obtain rfl := h backoffBase
  obtain rfl := h requestTimeout
  obtain rfl := h maxWorkers
  obtain rfl := h baseUrl
  obtain rfl := h apiKey
  obtain rfl := h root
  rfl

/-! ### What settings are read from -/

variable {ms : Yaml.Members} {v : Yaml} {s : Settings Float} {analyzer : AnalyzerConfig Float} {judge : JudgeConfig Float}
  {staging : StagingConfig}

section

variable {α : Type} {name : String} {value a : α} {field : Yaml → Checked Yaml α}

theorem of_defaulted (h : defaulted (Yaml.shown ms) name value field = .ok a) :
    match Yaml.at? [name] (.table ms) with
    | some v => field v = .ok a
    | none => a = value := by
  rw [defaulted, Yaml.member?_shown] at h
  rw [Yaml.at?_cons_table]
  cases hv : lookup name ms with
  | none =>
    rw [hv] at h
    exact (Checked.ok.inj h).symm
  | some v =>
    rw [hv] at h
    exact Checked.under_eq_ok h

/-- A number of things is checked as an integer. -/
theorem of_defaulted_toNat {n : Nat} {i : Int} {field : Yaml → Checked Yaml Int}
    (h : defaulted (Yaml.shown ms) name (n : Int) field = .ok i) :
    match Yaml.at? [name] (.table ms) with
    | some v => (Int.toNat <$> field v : Checked Yaml Nat) = .ok i.toNat
    | none => i.toNat = n := by
  have hread := of_defaulted h
  cases hv : Yaml.at? [name] (.table ms) with
  | none =>
    rw [hv] at hread
    exact (congrArg Int.toNat hread).trans (Int.toNat_natCast n)
  | some v =>
    rw [hv] at hread
    dsimp only at hread ⊢
    rw [hread]
    rfl

theorem of_required {whole : Yaml} (h : required whole (Yaml.shown ms) name field = .ok a) :
    ∃ v, Yaml.at? [name] (.table ms) = some v ∧ field v = .ok a := by
  obtain ⟨v, hv, hpassed⟩ := exists_of_required h
  rw [Yaml.member?_shown] at hv
  exact ⟨v, by rw [Yaml.at?_cons_table, hv]; rfl, hpassed⟩

end

/-! ### Sections -/

theorem reads_analyzer (h : AnalyzerConfig.check v = .ok analyzer) (judge : JudgeConfig Float) (staging : StagingConfig) (k : Key)
    (hk : k.names.1 = "analyzer") : k.Reads (Yaml.at? [k.names.2] v) (k.get ⟨analyzer, judge, staging⟩) := by
  obtain ⟨part, rfl, hfields⟩ := Yaml.exists_table_of_record h
  obtain ⟨_, seconds, hrest, hseconds, rfl⟩ := Checked.seq_eq_ok hfields
  obtain ⟨words, hwords, rfl⟩ := Checked.map_eq_ok hrest
  cases k with
  | command =>
    obtain ⟨w, hw, hpassed⟩ := of_required hwords
    show Reads command (Yaml.at? ["command"] (.table part)) words
    rw [hw]
    exact hpassed
  | timeout => exact of_defaulted hseconds
  | _ => exact absurd hk (by decide)

theorem reads_judge (h : JudgeConfig.check v = .ok judge) (analyzer : AnalyzerConfig Float) (staging : StagingConfig) (k : Key)
    (hk : k.names.1 = "judge") : k.Reads (Yaml.at? [k.names.2] v) (k.get ⟨analyzer, judge, staging⟩) := by
  obtain ⟨part, rfl, h₁⟩ := Yaml.exists_table_of_record h
  obtain ⟨_, secret, h₂, hsecret, rfl⟩ := Checked.seq_eq_ok h₁
  obtain ⟨_, url, h₃, hurl, rfl⟩ := Checked.seq_eq_ok h₂
  obtain ⟨_, _, h₄, hcount, rfl⟩ := Checked.seq_eq_ok h₃
  obtain ⟨workers, hworkers, rfl⟩ := Checked.map_eq_ok hcount
  obtain ⟨_, limit, h₅, hlimit, rfl⟩ := Checked.seq_eq_ok h₄
  obtain ⟨_, base, h₆, hbase, rfl⟩ := Checked.seq_eq_ok h₅
  obtain ⟨_, policy, h₇, hpolicy, rfl⟩ := Checked.seq_eq_ok h₆
  obtain ⟨_, attempts, h₈, hattempts, rfl⟩ := Checked.seq_eq_ok h₇
  obtain ⟨_, tokens, h₉, htokens, rfl⟩ := Checked.seq_eq_ok h₈
  obtain ⟨_, seed, h₁₀, hseed, rfl⟩ := Checked.seq_eq_ok h₉
  obtain ⟨name, hname, rfl⟩ := Checked.map_eq_ok h₁₀
  cases k with
  | model => exact of_defaulted hname
  | seed => exact of_defaulted hseed
  | maxTokens => exact of_defaulted_toNat htokens
  | maxAttempts => exact of_defaulted_toNat hattempts
  | backoff => exact of_defaulted hpolicy
  | backoffBase => exact of_defaulted hbase
  | requestTimeout => exact of_defaulted hlimit
  | maxWorkers => exact of_defaulted_toNat hworkers
  | baseUrl => exact of_defaulted hurl
  | apiKey => exact of_defaulted hsecret
  | _ => exact absurd hk (by decide)

theorem reads_staging (h : StagingConfig.check v = .ok staging) (analyzer : AnalyzerConfig Float) (judge : JudgeConfig Float) :
    root.Reads (Yaml.at? [root.names.2] v) (root.get ⟨analyzer, judge, staging⟩) := by
  obtain ⟨part, rfl, hfields⟩ := Yaml.exists_table_of_record h
  obtain ⟨directory, hdirectory, rfl⟩ := Checked.map_eq_ok hfields
  exact of_defaulted hdirectory

/-- A section that is there is checked as a whole. -/
theorem section_of_defaulted {α : Type} {name : String} {value a : α} {field : Yaml → Checked Yaml α}
    (h : defaulted (Yaml.shown ms) name value field = .ok a) :
    (lookup name ms = none ∧ a = value) ∨ ∃ v, lookup name ms = some v ∧ field v = .ok a := by
  rw [defaulted, Yaml.member?_shown] at h
  cases hv : lookup name ms with
  | none =>
    rw [hv] at h
    exact .inl ⟨rfl, (Checked.ok.inj h).symm⟩
  | some v =>
    rw [hv] at h
    exact .inr ⟨v, rfl, Checked.under_eq_ok h⟩

theorem at?_way (k : Key) (ms : Yaml.Members) :
    Yaml.at? k.way (.table ms) = (lookup k.names.1 ms).bind (Yaml.at? [k.names.2]) := by
  rw [way, Yaml.at?_cons_table]

/-- The values of settings are read from what a table says under their keys. -/
theorem reads_of_check (h : Settings.check (Yaml.table ms) = .ok s) (k : Key) :
    k.Reads (Yaml.at? k.way (.table ms)) (k.get s) := by
  obtain ⟨ms', hms, h₁⟩ := Yaml.exists_table_of_record h
  obtain rfl := Yaml.table.inj hms
  obtain ⟨_, staging, h₂, hstaging, rfl⟩ := Checked.seq_eq_ok h₁
  obtain ⟨_, judge, h₃, hjudge, rfl⟩ := Checked.seq_eq_ok h₂
  obtain ⟨analyzer, hanalyzer, rfl⟩ := Checked.map_eq_ok h₃
  rw [at?_way]
  have hsection : k.names.1 = "analyzer" ∨ k.names.1 = "judge" ∨ k = root := by
    cases k <;> decide
  rcases hsection with hname | hname | rfl
  · obtain ⟨v, hv, hpassed⟩ := exists_of_required hanalyzer
    rw [Yaml.member?_shown] at hv
    rw [hname, hv]
    exact reads_analyzer hpassed judge staging k hname
  · rw [hname]
    rcases section_of_defaulted hjudge with ⟨hnone, rfl⟩ | ⟨v, hv, hpassed⟩
    · rw [hnone]
      cases k with
      | command | timeout | root => exact absurd hname (by decide)
      | _ => rfl
    · rw [hv]
      exact reads_judge hpassed analyzer staging k hname
  · rcases section_of_defaulted hstaging with ⟨hnone, rfl⟩ | ⟨v, hv, hpassed⟩
    · show root.Reads ((lookup "staging" ms).bind _) _
      rw [hnone]
      rfl
    · show root.Reads ((lookup "staging" ms).bind _) _
      rw [hv]
      exact reads_staging hpassed analyzer judge

/-- The standard settings are read from the table of what holds where nothing is said, and each of them passes. -/
theorem reads_standard (k : Key) : k.Reads (Yaml.at? k.way (.table standardTable)) (k.get standard) := by
  cases k <;> rfl

end Key

end Settings
end Adjudication
