import Adjudication.Files.Path
import Adjudication.Judge.Backoff
import Adjudication.Schema.Scalar

/-!
The settings of a run: how the analyzer is called, how the judge is asked, and where runs are staged.
-/

namespace Adjudication

open Schema

/-- How the analyzer is called: templates of its command and how long it may run. -/
structure AnalyzerConfig (σ : Type) where
  command : List String
  timeout : σ

/-- Everything that the judge's client needs, credentials included. -/
structure JudgeConfig (σ : Type) where
  model : String
  seed : Int
  maxTokens : Nat
  maxAttempts : Nat
  backoff : Backoff
  backoffBase : σ
  requestTimeout : σ
  maxWorkers : Nat
  baseUrl : Option String
  apiKey : Option String

/-- Where runs are staged; nothing for the system's directory of temporary files. -/
structure StagingConfig where
  root : Option Files.Path

structure Settings (σ : Type) where
  analyzer : AnalyzerConfig σ
  judge : JudgeConfig σ
  staging : StagingConfig

/-- Whether a list of characters occurs in another one. -/
def occursIn (piece : List Char) : List Char → Bool
  | [] => piece.isEmpty
  | c :: rest => piece.isPrefixOf (c :: rest) || occursIn piece rest

namespace AnalyzerConfig

def defaultCommand : List String :=
  ["slither", "\x7bsource\x7d", "--json", "\x7boutput\x7d"]

/-- The first placeholder that a command lacks, its parts read with a space between them. -/
def missingPlaceholder? (command : List String) : Option String :=
  ["\x7bsource\x7d", "\x7boutput\x7d"].find? fun placeholder =>
    !occursIn placeholder.toList (" ".intercalate command).toList

def checkCommand {δ : Type} [Shaped δ] (d : δ) : Checked δ (List String) :=
  (listOf plainText d).bind fun command =>
    if command = [] then .fault (.listTooShort 1 0) d
    else
      match missingPlaceholder? command with
      | some placeholder =>
        .fault (.rule ("analyzer command must contain " ++ placeholder)) d
      | none => .ok command

def check {δ : Type} [Shaped δ] (d : δ) : Checked δ (AnalyzerConfig Float) :=
  record "AnalyzerConfig" d fun ms =>
    AnalyzerConfig.mk <$> required d ms "command" checkCommand
      <*> defaulted ms "timeout" 300.0 positiveNumber

def toJson (c : AnalyzerConfig Float) : Json :=
  .obj [("command", .arr (c.command.map .str)), ("timeout", .double c.timeout)]

end AnalyzerConfig

namespace JudgeConfig

def standard : JudgeConfig Float :=
  { model := "gpt-4o-mini", seed := 1, maxTokens := 1000, maxAttempts := 4, backoff := .descending,
    backoffBase := 1.0, requestTimeout := 60.0, maxWorkers := 1, baseUrl := none, apiKey := none }

def check {δ : Type} [Shaped δ] (d : δ) : Checked δ (JudgeConfig Float) :=
  record "JudgeConfig" d fun ms =>
    let s := standard
    (fun model seed tokens attempts => JudgeConfig.mk model seed (Int.toNat tokens) (Int.toNat attempts))
      <$> defaulted ms "model" s.model plainText
      <*> defaulted ms "seed" s.seed integer
      <*> defaulted ms "max_tokens" s.maxTokens (integerAbove 0)
      <*> defaulted ms "max_attempts" s.maxAttempts (integerFrom 1)
      <*> defaulted ms "backoff" s.backoff (among Backoff.named)
      <*> defaulted ms "backoff_base" s.backoffBase nonnegativeNumber
      <*> defaulted ms "request_timeout" s.requestTimeout positiveNumber
      <*> (Int.toNat <$> defaulted ms "max_workers" s.maxWorkers (integerFrom 1))
      <*> defaulted ms "base_url" s.baseUrl (nullable plainText)
      <*> defaulted ms "api_key" s.apiKey (nullable plainText)

/-- A secret as it is shown: stars, or nothing if it is empty. -/
def masked (secret : String) : String := if secret = "" then "" else "**********"

def toJson (c : JudgeConfig Float) : Json :=
  .obj [("model", .str c.model), ("seed", .int c.seed), ("max_tokens", .int c.maxTokens),
    ("max_attempts", .int c.maxAttempts), ("backoff", .str c.backoff.name),
    ("backoff_base", .double c.backoffBase), ("request_timeout", .double c.requestTimeout),
    ("max_workers", .int c.maxWorkers), ("base_url", .ofOption .str c.baseUrl),
    ("api_key", .ofOption (fun k => .str (masked k)) c.apiKey)]

end JudgeConfig

namespace StagingConfig

def checkPath {δ : Type} [Shaped δ] (d : δ) : Checked δ Files.Path :=
  match shape d with
  | .text s => .ok (Files.Path.ofText s)
  | _ => .fault .notPath d

def check {δ : Type} [Shaped δ] (d : δ) : Checked δ StagingConfig :=
  record "StagingConfig" d fun ms =>
    StagingConfig.mk <$> defaulted ms "root" none (nullable checkPath)

def toJson (c : StagingConfig) : Json :=
  .obj [("root", .ofOption (fun p => .str p.text) c.root)]

end StagingConfig

namespace Settings

/-- The settings where nothing is said. -/
def standard : Settings Float := ⟨⟨AnalyzerConfig.defaultCommand, 300.0⟩, JudgeConfig.standard, ⟨none⟩⟩

def check {δ : Type} [Shaped δ] (d : δ) : Checked δ (Settings Float) :=
  record "Settings" d fun ms =>
    Settings.mk <$> required d ms "analyzer" AnalyzerConfig.check
      <*> defaulted ms "judge" JudgeConfig.standard JudgeConfig.check
      <*> defaulted ms "staging" ⟨none⟩ StagingConfig.check

def toJson (s : Settings Float) : Json :=
  .obj [("analyzer", s.analyzer.toJson), ("judge", s.judge.toJson), ("staging", s.staging.toJson)]

end Settings
end Adjudication
