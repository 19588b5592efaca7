import Two09.Lib.Words
import Mathlib

/-!
# Analysing install scripts

`script_analysis.c`: what `debag_analyze_script` makes of an install script. The file is read in pieces of a buffer, a
line with one of four beginnings opens a function, and every other line of a function becomes an intent by what it
begins with.
-/

namespace Two09.Debag.Script

open Lib

/-! ### Intents -/

/-- `intent_type_t` -/
inductive IntentType
  | fileCreate
  | fileRemove
  | serviceEnable
  | serviceDisable
  | serviceStart
  | serviceStop
  | serviceReload
  | userCreate
  | groupCreate
  | cacheRebuild
  | permissionChange
  | runCommand
  | sysusers
  | tmpfiles
  deriving DecidableEq

/-- `script_intent_t` -/
structure Intent where
  type : IntentType
  target : Bytes
  detail : Option Bytes
  deriving DecidableEq

/-- `script_analysis_t` -/
structure ScriptAnalysis where
  functionName : Bytes
  intents : List Intent
  deriving DecidableEq

/-! ### Helpers -/

/-- `trim` -/
def trim (s : Bytes) : Bytes := (s.dropWhile isSpace).rdropWhile isSpace

/-- `strstr`: from where the pattern stands first. -/
def strstr (s pattern : Bytes) : Option Bytes := s.tails.find? fun t => pattern <+: t

/-- Up to the first white space. -/
def token (s : Bytes) : Bytes := s.takeWhile fun c => !isSpace c

/-- `extract_arg`, where the command is so many bytes long. -/
def extractArg (line : Bytes) (cmd : ℕ) : Option Bytes :=
  let p := (line.drop cmd).dropWhile isSpace
  if p = [] then none else some (token p)

/-- The flags in front. Each has a byte at least, so that there are no more of them than bytes. -/
def skipFlags : ℕ → Bytes → Bytes
  | 0, p => p
  | n + 1, p =>
    if p.head? = some 45 then skipFlags n ((p.dropWhile fun c => !isSpace c).dropWhile isSpace) else p

/-- `extract_quoted_arg` -/
def extractQuotedArg (line : Bytes) (cmd : ℕ) : Option Bytes :=
  let p := (line.drop cmd).dropWhile isSpace
  if p = [] then none else some (token (skipFlags p.length p))

/-! ### One line -/

/-- What begins a line that is passed over. -/
def silent : List Bytes := [ascii "echo", ascii "export", ascii "local"]

/-- The service that stands behind the word, unless it begins with a dash. -/
def service (trimmed word : Bytes) (type : IntentType) : Option Intent :=
  (strstr trimmed word).bind fun s =>
    (extractArg s word.length).bind fun svc => if svc.head? ≠ some 45 then some ⟨type, svc, none⟩ else none

/-- The lines that begin with `systemctl `. -/
def systemctl (trimmed : Bytes) : Intent :=
  (service trimmed (ascii "enable") .serviceEnable <|> service trimmed (ascii "disable") .serviceDisable <|>
    service trimmed (ascii "start") .serviceStart <|> service trimmed (ascii "stop") .serviceStop).getD
    (if (strstr trimmed (ascii "daemon-reload")).isSome then ⟨.serviceReload, ascii "daemon-reload", none⟩
      else ⟨.runCommand, trimmed, some (ascii "systemctl")⟩)

/-- A line that begins with the words of a kind: its first argument, if it has one. -/
def argument (trimmed start : Bytes) (cmd : ℕ) (type : IntentType) (detail : Option Bytes) : Option Intent :=
  if start <+: trimmed then (extractArg trimmed cmd).map fun arg => ⟨type, arg, detail⟩ else none

def install (trimmed : Bytes) : Option Intent :=
  if ascii "install " <+: trimmed ∨ ascii "install\t" <+: trimmed then
    (extractQuotedArg trimmed 7).map fun target => ⟨.fileCreate, target, some (ascii "install")⟩
  else none

def mkdir (trimmed : Bytes) : Option Intent :=
  argument trimmed (ascii "mkdir ") 5 .fileCreate (some (ascii "mkdir"))

def touch (trimmed : Bytes) : Option Intent :=
  argument trimmed (ascii "touch ") 5 .fileCreate (some (ascii "touch"))

def rm (trimmed : Bytes) : Option Intent :=
  argument trimmed (ascii "rm ") 3 .fileRemove none <|> argument trimmed (ascii "rmdir ") 6 .fileRemove none

def chown (trimmed : Bytes) : Option Intent :=
  argument trimmed (ascii "chown ") 5 .permissionChange (some (ascii "chown"))

def chmod (trimmed : Bytes) : Option Intent :=
  argument trimmed (ascii "chmod ") 5 .permissionChange (some (ascii "chmod"))

def useradd (trimmed : Bytes) : Option Intent := argument trimmed (ascii "useradd ") 7 .userCreate none

def groupadd (trimmed : Bytes) : Option Intent := argument trimmed (ascii "groupadd ") 8 .groupCreate none

/-- A line that begins with one of the words: all of it. -/
def wholeLine (trimmed : Bytes) (starts : List Bytes) (type : IntentType) : Option Intent :=
  if ∃ start ∈ starts, start <+: trimmed then some ⟨type, trimmed, none⟩ else none

def sysusers (trimmed : Bytes) : Option Intent :=
  wholeLine trimmed [ascii "systemd-sysusers", ascii "sysusers"] .sysusers

def tmpfiles (trimmed : Bytes) : Option Intent :=
  wholeLine trimmed [ascii "systemd-tmpfiles", ascii "tmpfiles"] .tmpfiles

def cacheRebuild (trimmed : Bytes) : Option Intent :=
  wholeLine trimmed
    [ascii "gtk-update-icon-cache", ascii "update-desktop-database", ascii "fc-cache", ascii "ldconfig"] .cacheRebuild

/-- `parse_line` -/
def parseLine (line : Bytes) : Option Intent :=
  let trimmed := trim (line.take 4095)
  if trimmed = [] ∨ trimmed.head? = some 35 ∨ ∃ start ∈ silent, start <+: trimmed then none
  else if ascii "systemctl " <+: trimmed then some (systemctl trimmed)
  else
    sysusers trimmed <|> tmpfiles trimmed <|> install trimmed <|> mkdir trimmed <|> touch trimmed <|> rm trimmed <|>
      chown trimmed <|> chmod trimmed <|> useradd trimmed <|> groupadd trimmed <|> cacheRebuild trimmed <|>
      some ⟨.runCommand, trimmed, none⟩

/-! ### A script -/

/-- The pieces that `fgets` reads into a buffer of 4096 bytes, where so many bytes more than the next one fit into the
piece it belongs to. -/
def fgetsLines : ℕ → Bytes → List Bytes
  | _, [] => []
  | n, c :: s =>
    if c = 10 ∨ n = 0 then [c] :: fgetsLines 4094 s
    else match fgetsLines (n - 1) s with
      | [] => [[c]]
      | line :: lines => (c :: line) :: lines

/-- What a line that opens a function begins with. -/
def headers : List Bytes := [ascii "post_install", ascii "post_upgrade", ascii "pre_remove", ascii "post_remove"]

def IsHeader (trimmed : Bytes) : Prop := ∃ start ∈ headers, start <+: trimmed

instance (trimmed : Bytes) : Decidable (IsHeader trimmed) := inferInstanceAs (Decidable (∃ start ∈ headers, _))

/-- The name of a function, up to the parenthesis, in a buffer of 64 bytes. -/
def functionName (trimmed : Bytes) : Bytes := (trimmed.takeWhile (· ≠ 40)).take 63

/-- The functions that are done with, and the one that is open. -/
structure Analyzer where
  done : List ScriptAnalysis
  current : Option ScriptAnalysis

def Analyzer.functions (a : Analyzer) : List ScriptAnalysis := a.done ++ a.current.toList

/-- One line of `debag_analyze_script`. -/
def Analyzer.line (a : Analyzer) (line : Bytes) : Analyzer :=
  let trimmed := trim (cstr line)
  if IsHeader trimmed then ⟨a.functions, some ⟨functionName trimmed, []⟩⟩
  else match a.current with
    | none => a
    | some f =>
      if trimmed.head? = some 125 then ⟨a.functions, none⟩
      else ⟨a.done, some { f with intents := f.intents ++ (parseLine trimmed).toList }⟩

/-- `debag_analyze_script`, for what is in the file. -/
def debagAnalyzeScript (file : Bytes) : List ScriptAnalysis :=
  ((fgetsLines 4094 file).foldl Analyzer.line ⟨[], none⟩).functions

end Two09.Debag.Script
