import Two09.Debag.Script
import Two09.Lib.Quoting
import Mathlib

/-!
# What an analysis hides

An install script function by function, what its analysis is to say about each command, and which scripts it says it
of.
-/

namespace Two09.Debag.Script

open Lib

/-! ### What is to be said of a command -/

/-- The first word of a command. -/
def commandName (text : Bytes) : Bytes := (commandWords text).headD []

/-- The first argument that is not an option. -/
def firstOperand (text : Bytes) : Option Bytes := (commandWords text).tail.find? fun arg => arg.head? ≠ some 45

/-- The line is a command, and not one of those that are not reported. -/
def Reported (text : Bytes) : Prop := text ≠ [] ∧ text.head? ≠ some 35 ∧ commandName text ∉ silent

instance (text : Bytes) : Decidable (Reported text) := inferInstanceAs (Decidable (_ ∧ _ ∧ _))

/-- The commands that create and remove files, and the others of which an argument is reported. -/
def fileCommands : List Bytes := [ascii "install", ascii "mkdir", ascii "touch", ascii "rm", ascii "rmdir"]

def otherCommands : List Bytes :=
  [ascii "systemctl", ascii "chown", ascii "chmod", ascii "useradd", ascii "groupadd"]

/-- What an intent is to say of a command: which file it creates or removes, and all of its text unless it is one of
those of which an argument is reported. -/
def Shows (text : Bytes) (i : Intent) : Prop :=
  match i.type with
  | .fileCreate | .fileRemove => commandName text ∈ fileCommands ∧ ∀ arg ∈ firstOperand text, i.target = arg
  | .serviceEnable | .serviceDisable | .serviceStart | .serviceStop | .serviceReload | .userCreate | .groupCreate
  | .permissionChange => commandName text ∈ otherCommands
  | .cacheRebuild | .runCommand | .sysusers | .tmpfiles => i.target = text

/-! ### When it is said -/

/-- The line is passed over, or taken for the end of the function. -/
def Hidden (text : Bytes) : Prop := text.head? = some 125 ∨ ∃ start ∈ silent, start <+: text

/-- The first operand, if there is one, is the first argument, and there is no white space in it. -/
def FirstArgument (text : Bytes) : Prop :=
  ∀ arg ∈ firstOperand text, (commandWords text).tail.head? = some arg ∧ ∀ c ∈ arg, isSpace c = false

/-- The first operand, if there is one, is what comes first behind `install` and is no option, quoted or not. -/
def FirstPiece (text : Bytes) : Prop :=
  ∀ arg ∈ firstOperand text, ((words isSpace (text.drop 7)).find? fun piece => piece.head? ≠ some 45) = some arg

def argumentStarts : List Bytes := [ascii "mkdir ", ascii "touch ", ascii "rm ", ascii "rmdir "]

def installStarts : List Bytes := [ascii "install ", ascii "install\t"]

/-- What is reported of a file is the first operand. -/
def TargetFirst (text : Bytes) : Prop :=
  (∀ start ∈ argumentStarts, start <+: text → FirstArgument text) ∧
    ∀ start ∈ installStarts, start <+: text → FirstPiece text

/-- If the line is a command, it makes the intent that it is to. -/
def Visible (text : Bytes) : Prop := Reported text → ¬ Hidden text ∧ TargetFirst text

/-! ### Beginnings -/

section Lines

variable {t r start name arg : Bytes} {i : Intent} {c : UInt8}

/-- What begins with one word does not begin with another. -/
lemma not_begins_of_begins {starts : List Bytes} (h : start <+: t)
    (hne : ∀ start' ∈ starts, ¬ start <+: start' ∧ ¬ start' <+: start) : ∀ start' ∈ starts, ¬ start' <+: t := by
  intro start' hmem h'
  rcases List.prefix_or_prefix_of_prefix h h' with hp | hp
  · exact (hne start' hmem).1 hp
  · exact (hne start' hmem).2 hp

/-- The words of a command that begins with a name and white space. -/
lemma commandWords_of_prefix (hname : Unquoted name) (hne : name ≠ []) (hc : isSpace c = true)
    (h : name ++ [c] <+: t) : commandWords t = name :: commandWords (t.drop (name.length + 1)) := by
  obtain ⟨r, rfl⟩ := h
  have hdrop : (name ++ [c] ++ r).drop (name.length + 1) = r := List.drop_left' (by simp)
  rw [hdrop, List.append_assoc, List.singleton_append, commandWords_append hname hne hc]

/-- What is taken for the argument of a command, and the words behind its name. -/
lemma extractArg_spec (s : Bytes) (cmd : ℕ) :
    (extractArg s cmd = none ∧ commandWords (s.drop cmd) = []) ∨
      ∃ w ws, extractArg s cmd = some (token w) ∧ commandWords (s.drop cmd) = w :: ws ∧
        ∃ c w', w = c :: w' ∧ isSpace c = false := by
  have hwords := commandWords_dropWhile (s.drop cmd)
  unfold extractArg
  cases hp : (s.drop cmd).dropWhile isSpace with
  | nil =>
    rw [hp] at hwords
    exact .inl ⟨rfl, hwords.symm⟩
  | cons c p =>
    have hc : isSpace c = false := by
      have hne : (s.drop cmd).dropWhile isSpace ≠ [] := by rw [hp]; exact List.cons_ne_nil _ _
      have hhead := List.head_dropWhile_not isSpace hne
      simp only [hp, List.head_cons] at hhead
      exact hhead
    rw [hp, commandWords_cons hc] at hwords
    refine .inr ⟨_, _, ?_, hwords.symm, c, _, by rw [cutWord, if_neg fun h => by simp [hc] at h], hc⟩
    rw [if_neg (List.cons_ne_nil _ _)]
    exact congrArg some (cutWord_takeWhile .plain (c :: p)).symm

/-! ### The first argument -/

/-- Of what begins with a name and white space, where the arguments are looked for. -/
structure Called (t name : Bytes) (cmd : ℕ) : Prop where
  name_eq : commandName t = name
  tail_eq : (commandWords t).tail = commandWords (t.drop cmd)

lemma called_of_prefix {cmd : ℕ} (hname : Unquoted name) (hne : name ≠ []) (hc : isSpace c = true)
    (h : name ++ [c] <+: t) (hcmd : cmd = name.length ∨ cmd = name.length + 1) : Called t name cmd := by
  have hwords := commandWords_of_prefix hname hne hc h
  refine ⟨by rw [commandName, hwords, List.headD_cons], ?_⟩
  rw [hwords, List.tail_cons]
  rcases hcmd with rfl | rfl
  · obtain ⟨r, rfl⟩ := h
    rw [List.append_assoc, List.singleton_append, List.drop_left, ← List.drop_drop, List.drop_left, List.drop_one,
      List.tail_cons, commandWords_space hc]
  · rfl

/-- The token that is reported is the first operand just if that is the first argument, and not cut. -/
lemma token_eq_iff {w : Bytes} {ws : List Bytes} (hws : (commandWords t).tail = w :: ws)
    (hw : ∃ c w', w = c :: w' ∧ isSpace c = false) :
    (∀ arg ∈ firstOperand t, token w = arg) ↔ FirstArgument t := by
  obtain ⟨c, w', rfl, hc⟩ := hw
  have htoken : token (c :: w') = c :: token w' := List.takeWhile_cons_of_pos (by simpa using hc)
  rw [FirstArgument, firstOperand, hws, List.head?_cons]
  by_cases hdash : c = 45
  · have hhead : (token (c :: w')).head? = some 45 := by rw [htoken, List.head?_cons, hdash]
    rw [List.find?_cons_of_neg (by simp [hdash])]
    refine forall₂_congr fun arg harg => iff_of_false ?_ ?_
    · rintro rfl
      have hfind := List.find?_some harg
      simp [hhead] at hfind
    · rintro ⟨heq, -⟩
      have hfind := List.find?_some harg
      rw [← Option.some.inj heq] at hfind
      simp [hdash] at hfind
  · rw [List.find?_cons_of_pos (by simpa using hdash)]
    simp only [Option.mem_some_iff, forall_eq', true_and]
    rw [token, List.takeWhile_eq_self_iff]
    simp

lemma argument_iff {cmd : ℕ} {type : IntentType} {detail : Option Bytes} (hcalled : start <+: t → Called t name cmd)
    (h : argument t start cmd type detail = some i) : start <+: t ∧ i.type = type ∧ commandName t = name ∧
      ((∀ arg ∈ firstOperand t, i.target = arg) ↔ FirstArgument t) := by
  unfold argument at h
  split_ifs at h with hstart
  obtain ⟨hname, htail⟩ := hcalled hstart
  rcases extractArg_spec t cmd with ⟨harg, -⟩ | ⟨w, ws, harg, hwords, hw⟩
  · rw [harg] at h
    cases h
  · rw [harg] at h
    obtain rfl := Option.some.inj h
    exact ⟨hstart, rfl, hname, token_eq_iff (htail.trans hwords) hw⟩

lemma firstArgument_of_none {cmd : ℕ} {type : IntentType} {detail : Option Bytes}
    (hcalled : start <+: t → Called t name cmd) (h : argument t start cmd type detail = none) (hstart : start <+: t) :
    FirstArgument t := by
  unfold argument at h
  rw [if_pos hstart] at h
  rcases extractArg_spec t cmd with ⟨-, hwords⟩ | ⟨w, ws, harg, -⟩
  · intro arg harg
    rw [firstOperand, (hcalled hstart).tail_eq, hwords] at harg
    cases harg
  · rw [harg] at h
    cases h

/-! ### Behind the flags -/

lemma words_dropWhile (s : Bytes) : words isSpace (s.dropWhile isSpace) = words isSpace s := by
  induction s with
  | nil => rfl
  | cons c s ih =>
    by_cases hc : isSpace c = true
    · rw [List.dropWhile_cons_of_pos hc, ih, words_cons hc]
    · rw [List.dropWhile_cons_of_neg hc]

lemma words_token (hc : isSpace c = false) (s : Bytes) :
    words isSpace (c :: s) = token (c :: s) :: words isSpace ((c :: s).dropWhile fun c => !isSpace c) := by
  have hplain : ∀ x ∈ token (c :: s), isSpace x = false := fun x hx => by
    simpa using List.mem_takeWhile_imp hx
  have hne : token (c :: s) ≠ [] := by
    rw [token, List.takeWhile_cons_of_pos (by simpa using hc)]
    exact List.cons_ne_nil _ _
  have hsplit : token (c :: s) ++ (c :: s).dropWhile (fun c => !isSpace c) = c :: s := List.takeWhile_append_dropWhile
  cases hrest : (c :: s).dropWhile (fun c => !isSpace c) with
  | nil =>
    rw [hrest, List.append_nil] at hsplit
    nth_rewrite 1 [← hsplit]
    exact words_eq_singleton hplain hne
  | cons d r =>
    have hd : isSpace d = true := by
      have hne' : (c :: s).dropWhile (fun c => !isSpace c) ≠ [] := by rw [hrest]; exact List.cons_ne_nil _ _
      have hhead := List.head_dropWhile_not (fun c => !isSpace c) hne'
      simp only [hrest, List.head_cons] at hhead
      simpa using hhead
    rw [hrest] at hsplit
    nth_rewrite 1 [← hsplit]
    rw [words_append_cons hplain hne hd, words_cons hd]

/-- Behind the flags stands the first piece that is none. -/
lemma token_skipFlags (n : ℕ) {p : Bytes} (hn : p.length ≤ n) (hp : ∀ c ∈ p.head?, isSpace c = false) :
    token (skipFlags n p) = ((words isSpace p).find? fun piece => piece.head? ≠ some 45).getD [] := by
  induction n generalizing p with
  | zero =>
    obtain rfl := List.length_eq_zero_iff.1 (Nat.le_zero.1 hn)
    rfl
  | succ n ih =>
    cases p with
    | nil => rfl
    | cons c s =>
      have hc : isSpace c = false := hp c rfl
      rw [words_token hc, skipFlags]
      have htoken : token (c :: s) = c :: token s := List.takeWhile_cons_of_pos (by simpa using hc)
      by_cases hdash : c = 45
      · have hhead : (token (c :: s)).head? = some 45 := by rw [htoken, List.head?_cons, hdash]
        rw [if_pos (by simp [hdash]), List.find?_cons_of_neg (by simp [hhead]), ← words_dropWhile]
        refine ih ?_ fun x hx => ?_
        · have hle := (List.dropWhile_suffix isSpace (l := (c :: s).dropWhile fun c => !isSpace c)).length_le
          have hle' := (List.dropWhile_suffix (fun c => !isSpace c) (l := s)).length_le
          rw [List.dropWhile_cons_of_pos (by simpa using hc)] at hle ⊢
          rw [List.length_cons] at hn
          omega
        · have hne : ((c :: s).dropWhile fun c => !isSpace c).dropWhile isSpace ≠ [] := by
            intro hnil
            rw [hnil] at hx
            cases hx
          have hhead := List.head_dropWhile_not isSpace hne
          rw [List.head?_eq_some_head hne] at hx
          rwa [← Option.some.inj hx]
      · rw [if_neg (by simpa using hdash), List.find?_cons_of_pos (by simpa [htoken] using hdash)]
        rfl

/-- A word of a command is not empty. -/
lemma ne_nil_of_mem_commandWords {w s : Bytes} (h : w ∈ commandWords s) : w ≠ [] := by
  have hcut : ∀ (q : Quoting) (s : Bytes), ∀ w ∈ (cutWord q s).2, w ≠ [] := by
    intro q s
    induction s generalizing q with
    | nil => exact List.forall_mem_nil _
    | cons c s ih =>
      rw [cutWord]
      split_ifs
      · intro w hw
        simp only [consWord] at hw
        split_ifs at hw with hnil
        · exact ih _ w hw
        · rcases List.mem_cons.1 hw with rfl | hw
          · exact hnil
          · exact ih _ w hw
      · exact ih _
  rw [commandWords, consWord] at h
  split_ifs at h with hnil
  · exact hcut _ _ w h
  · rcases List.mem_cons.1 h with rfl | h
    · exact hnil
    · exact hcut _ _ w h

/-! ### One line -/

lemma unquoted_names : ∀ name ∈ ["install", "mkdir", "touch", "rm", "rmdir", "systemctl", "chown", "chmod", "useradd",
    "groupadd"], Unquoted (ascii name) ∧ ascii name ≠ [] := by
  simp [Unquoted, isSpace, ascii]

lemma called_install (h : ∃ start ∈ installStarts, start <+: t) : Called t (ascii "install") 7 := by
  obtain ⟨hname, hne⟩ := unquoted_names "install" (by simp)
  obtain ⟨start, hstart, h⟩ := h
  rcases List.mem_pair.1 hstart with rfl | rfl
  · exact called_of_prefix hname hne (c := 32) (by decide) h (.inl rfl)
  · exact called_of_prefix hname hne (c := 9) (by decide) h (.inl rfl)

lemma install_iff (h : install t = some i) : (∃ start ∈ installStarts, start <+: t) ∧ i.type = .fileCreate ∧
    commandName t = ascii "install" ∧ ((∀ arg ∈ firstOperand t, i.target = arg) ↔ FirstPiece t) := by
  unfold install at h
  split_ifs at h with hstart
  have hstarts : ∃ start ∈ installStarts, start <+: t := by simpa [installStarts] using hstart
  have hcalled := called_install hstarts
  obtain ⟨target, htarget, rfl⟩ := Option.map_eq_some_iff.1 h
  unfold extractQuotedArg at htarget
  simp only at htarget
  split_ifs at htarget with hp
  refine ⟨hstarts, rfl, hcalled.name_eq, ?_⟩
  have hfront : ∀ c ∈ ((t.drop 7).dropWhile isSpace).head?, isSpace c = false := by
    intro c hc
    have hhead := List.head_dropWhile_not isSpace hp
    rw [List.head?_eq_some_head hp] at hc
    rwa [← Option.some.inj hc]
  rw [← Option.some.inj htarget, token_skipFlags _ le_rfl hfront, words_dropWhile]
  refine forall₂_congr fun arg harg => ?_
  have hne : arg ≠ [] := by
    rw [firstOperand, hcalled.tail_eq] at harg
    exact ne_nil_of_mem_commandWords (List.mem_of_find?_eq_some harg)
  cases (words isSpace (t.drop 7)).find? fun piece => piece.head? ≠ some 45 with
  | none => simpa using hne.symm
  | some piece => simp

lemma firstPiece_of_none (h : install t = none) (hstart : ∃ start ∈ installStarts, start <+: t) : FirstPiece t := by
  have hcalled := called_install hstart
  unfold install at h
  rw [if_pos (by simpa [installStarts] using hstart), Option.map_eq_none_iff] at h
  unfold extractQuotedArg at h
  simp only at h
  split_ifs at h with hp
  intro arg harg
  rw [firstOperand, hcalled.tail_eq, ← commandWords_dropWhile, hp] at harg
  cases harg

lemma called_argument {start : Bytes} {cmd : ℕ} (name : String)
    (hname : name ∈ ["install", "mkdir", "touch", "rm", "rmdir", "systemctl", "chown", "chmod", "useradd", "groupadd"])
    (hstart : start = ascii name ++ [32]) (hcmd : cmd = (ascii name).length ∨ cmd = (ascii name).length + 1)
    (h : start <+: t) : Called t (ascii name) cmd :=
  called_of_prefix (unquoted_names name hname).1 (unquoted_names name hname).2 (by decide) (hstart ▸ h) hcmd

lemma install_apart : ∀ start ∈ argumentStarts, ∀ start' ∈ installStarts, ¬ start <+: start' ∧ ¬ start' <+: start := by
  decide +kernel

lemma sysusers_apart : ∀ start ∈ [ascii "systemd-sysusers", ascii "sysusers"],
    ∀ start' ∈ argumentStarts ++ installStarts, ¬ start <+: start' ∧ ¬ start' <+: start := by
  decide +kernel

lemma tmpfiles_apart : ∀ start ∈ [ascii "systemd-tmpfiles", ascii "tmpfiles"],
    ∀ start' ∈ argumentStarts ++ installStarts, ¬ start <+: start' ∧ ¬ start' <+: start := by
  decide +kernel

lemma targetFirst_iff_argument (hmem : start ∈ argumentStarts) (h : start <+: t) : TargetFirst t ↔ FirstArgument t := by
  refine ⟨fun htarget => htarget.1 start hmem h, fun hfirst => ⟨fun _ _ _ => hfirst, ?_⟩⟩
  intro start' hmem' h'
  exact absurd h' (not_begins_of_begins h (install_apart start hmem) start' hmem')

lemma targetFirst_iff_install (h : ∃ start ∈ installStarts, start <+: t) : TargetFirst t ↔ FirstPiece t := by
  obtain ⟨start, hmem, h⟩ := h
  refine ⟨fun htarget => htarget.2 start hmem h, fun hfirst => ⟨?_, fun _ _ _ => hfirst⟩⟩
  intro start' hmem' h'
  exact absurd h (not_begins_of_begins h' (install_apart start' hmem') start hmem)

/-- What begins otherwise has no target that could be wrong. -/
lemma targetFirst_of_begins (h : start <+: t)
    (hapart : ∀ start' ∈ argumentStarts ++ installStarts, ¬ start <+: start' ∧ ¬ start' <+: start) : TargetFirst t := by
  have hnot := not_begins_of_begins h hapart
  exact ⟨fun start hmem hstart => absurd hstart (hnot start (List.mem_append_left _ hmem)),
    fun start hmem hstart => absurd hstart (hnot start (List.mem_append_right _ hmem))⟩

lemma targetFirst_of_none (hinstall : install t = none) (hmkdir : mkdir t = none) (htouch : touch t = none)
    (hrm : rm t = none) : TargetFirst t := by
  refine ⟨fun start hmem hstart => ?_, fun start hmem hstart => firstPiece_of_none hinstall ⟨start, hmem, hstart⟩⟩
  obtain ⟨hrm, hrmdir⟩ : argument t (ascii "rm ") 3 .fileRemove none = none ∧
      argument t (ascii "rmdir ") 6 .fileRemove none = none := by simpa [rm] using hrm
  simp only [argumentStarts, List.mem_cons, List.not_mem_nil, or_false] at hmem
  rcases hmem with rfl | rfl | rfl | rfl
  · exact firstArgument_of_none (called_argument "mkdir" (by simp) (by simp [ascii]) (.inl rfl)) hmkdir hstart
  · exact firstArgument_of_none (called_argument "touch" (by simp) (by simp [ascii]) (.inl rfl)) htouch hstart
  · exact firstArgument_of_none (called_argument "rm" (by simp) (by simp [ascii]) (.inr rfl)) hrm hstart
  · exact firstArgument_of_none (called_argument "rmdir" (by simp) (by simp [ascii]) (.inr rfl)) hrmdir hstart

lemma wholeLine_eq_some {starts : List Bytes} {type : IntentType} (h : wholeLine t starts type = some i) :
    (∃ start ∈ starts, start <+: t) ∧ i = ⟨type, t, none⟩ := by
  unfold wholeLine at h
  split_ifs at h with hstarts
  exact ⟨hstarts, (Option.some.inj h).symm⟩

lemma service_type {word : Bytes} {type : IntentType} (h : service t word type = some i) : i.type = type := by
  obtain ⟨s, -, h⟩ := Option.bind_eq_some_iff.1 h
  obtain ⟨svc, -, h⟩ := Option.bind_eq_some_iff.1 h
  split_ifs at h
  rw [← Option.some.inj h]

/-- The services are those of `systemctl`; what is none is reported as it is. -/
lemma shows_systemctl (hname : commandName t = ascii "systemctl") : Shows t (systemctl t) := by
  have hother : commandName t ∈ otherCommands := hname ▸ List.mem_cons_self ..
  unfold systemctl
  cases hservice : service t (ascii "enable") .serviceEnable <|> service t (ascii "disable") .serviceDisable <|>
    service t (ascii "start") .serviceStart <|> service t (ascii "stop") .serviceStop with
  | none =>
    rw [Option.getD_none]
    split_ifs
    · exact hother
    · rfl
  | some i =>
    rw [Option.getD_some]
    simp only [Option.orElse_eq_orElse, Option.orElse_eq_or, Option.or_eq_some_iff] at hservice
    rcases hservice with h | ⟨-, h | ⟨-, h | ⟨-, h⟩⟩⟩
    all_goals simpa [Shows, service_type h] using hother

/-- A file is reported right just if the target is the first operand. -/
lemma shows_file_iff {type : IntentType} (htype : type = .fileCreate ∨ type = .fileRemove) (hi : i.type = type)
    (hname : commandName t ∈ fileCommands) : Shows t i ↔ ∀ arg ∈ firstOperand t, i.target = arg := by
  rcases htype with rfl | rfl <;> simp [Shows, hi, hname]

/-- **One line**: an intent says of the line what it is to just if its target is the right one. -/
lemma shows_iff (ht : trim (t.take 4095) = t) (h : parseLine t = some i) : Shows t i ↔ TargetFirst t := by
  unfold parseLine at h
  simp only [ht] at h
  split_ifs at h with hnone hsystemctl
  · have hcalled := called_argument "systemctl" (by simp) (by simp [ascii]) (.inl rfl) hsystemctl
    obtain rfl := Option.some.inj h
    exact iff_of_true (shows_systemctl hcalled.name_eq) (targetFirst_of_begins hsystemctl (by decide +kernel))
  simp only [Option.orElse_eq_orElse, Option.orElse_eq_or, Option.or_eq_some_iff] at h
  rcases h with h | ⟨-, h | ⟨-, h | ⟨hinstall, h | ⟨hmkdir, h | ⟨htouch, h | ⟨hrm, h⟩⟩⟩⟩⟩⟩
  · obtain ⟨⟨start, hmem, hstart⟩, rfl⟩ := wholeLine_eq_some h
    exact iff_of_true rfl (targetFirst_of_begins hstart (sysusers_apart start hmem))
  · obtain ⟨⟨start, hmem, hstart⟩, rfl⟩ := wholeLine_eq_some h
    exact iff_of_true rfl (targetFirst_of_begins hstart (tmpfiles_apart start hmem))
  · obtain ⟨hstart, htype, hname, htarget⟩ := install_iff h
    rw [shows_file_iff (.inl rfl) htype (by simp [hname, fileCommands]), targetFirst_iff_install hstart, htarget]
  · obtain ⟨hstart, htype, hname, htarget⟩ :=
      argument_iff (called_argument "mkdir" (by simp) (by simp [ascii]) (.inl rfl)) h
    rw [shows_file_iff (.inl rfl) htype (by simp [hname, fileCommands]),
      targetFirst_iff_argument (by simp [argumentStarts]) hstart, htarget]
  · obtain ⟨hstart, htype, hname, htarget⟩ :=
      argument_iff (called_argument "touch" (by simp) (by simp [ascii]) (.inl rfl)) h
    rw [shows_file_iff (.inl rfl) htype (by simp [hname, fileCommands]),
      targetFirst_iff_argument (by simp [argumentStarts]) hstart, htarget]
  · rw [rm, Option.orElse_eq_orElse, Option.orElse_eq_or, Option.or_eq_some_iff] at h
    rcases h with h | ⟨-, h⟩
    · obtain ⟨hstart, htype, hname, htarget⟩ :=
        argument_iff (called_argument "rm" (by simp) (by simp [ascii]) (.inr rfl)) h
      rw [shows_file_iff (.inr rfl) htype (by simp [hname, fileCommands]),
        targetFirst_iff_argument (by simp [argumentStarts]) hstart, htarget]
    · obtain ⟨hstart, htype, hname, htarget⟩ :=
        argument_iff (called_argument "rmdir" (by simp) (by simp [ascii]) (.inr rfl)) h
      rw [shows_file_iff (.inr rfl) htype (by simp [hname, fileCommands]),
        targetFirst_iff_argument (by simp [argumentStarts]) hstart, htarget]
  · refine iff_of_true ?_ (targetFirst_of_none hinstall hmkdir htouch hrm)
    rcases h with h | ⟨-, h | ⟨-, h | ⟨-, h | ⟨-, h | ⟨-, h⟩⟩⟩⟩⟩
    · obtain ⟨-, htype, hname, -⟩ := argument_iff (called_argument "chown" (by simp) (by simp [ascii]) (.inl rfl)) h
      simp [Shows, htype, hname, otherCommands]
    · obtain ⟨-, htype, hname, -⟩ := argument_iff (called_argument "chmod" (by simp) (by simp [ascii]) (.inl rfl)) h
      simp [Shows, htype, hname, otherCommands]
    · obtain ⟨-, htype, hname, -⟩ := argument_iff (called_argument "useradd" (by simp) (by simp [ascii]) (.inl rfl)) h
      simp [Shows, htype, hname, otherCommands]
    · obtain ⟨-, htype, hname, -⟩ := argument_iff (called_argument "groupadd" (by simp) (by simp [ascii]) (.inl rfl)) h
      simp [Shows, htype, hname, otherCommands]
    · obtain ⟨-, rfl⟩ := wholeLine_eq_some h
      rfl
    · obtain rfl := Option.some.inj h
      rfl

/-! ### The lines of a function -/

/-- What a line is that is read. -/
def Trimmed (text : Bytes) : Prop := trim text = text ∧ text.length ≤ 4095

lemma Trimmed.trim_take (ht : Trimmed t) : trim (t.take 4095) = t := by
  rw [List.take_of_length_le ht.2, ht.1]

lemma isSpace_head (ht : trim t = t) (hc : c ∈ t.head?) : isSpace c = false := by
  have hne : t.dropWhile isSpace ≠ [] := by
    intro hnil
    rw [← ht, trim, hnil] at hc
    cases hc
  have hhead := List.head_dropWhile_not isSpace hne
  obtain ⟨r, hr⟩ : t <+: t.dropWhile isSpace := by
    nth_rewrite 1 [← ht]
    exact List.rdropWhile_prefix _ _
  obtain ⟨s, rfl⟩ := List.head?_eq_some_iff.1 hc
  simpa [← hr] using hhead

/-- A line begins with its first word. -/
lemma commandName_prefix (ht : trim t = t) : commandName t <+: t := by
  cases t with
  | nil => exact List.nil_prefix
  | cons c s =>
    rw [commandName, commandWords_cons (isSpace_head ht rfl), List.headD_cons]
    exact cutWord_prefix _ _

lemma head?_commandName (hc : isSpace c = false) (s : Bytes) : (commandName (c :: s)).head? = some c := by
  rw [commandName, commandWords_cons hc, List.headD_cons, cutWord, if_neg fun h => by simp [hc] at h, List.head?_cons]

/-- What is passed over: the empty lines, the comments, and what begins with a name that is not reported. -/
lemma parseLine_eq_none_iff (ht : Trimmed t) :
    parseLine t = none ↔ t = [] ∨ t.head? = some 35 ∨ ∃ start ∈ silent, start <+: t := by
  unfold parseLine
  simp only [ht.trim_take]
  split_ifs with hnone hsystemctl
  · exact iff_of_true rfl hnone
  · exact iff_of_false (by simp) hnone
  · exact iff_of_false (by simp [Option.orElse_eq_orElse, Option.orElse_eq_or]) hnone

lemma parseLine_of_not_reported (ht : Trimmed t) (h : ¬ Reported t) : parseLine t = none := by
  rw [parseLine_eq_none_iff ht]
  unfold Reported at h
  by_cases hne : t = []
  · exact .inl hne
  by_cases hcomment : t.head? = some 35
  · exact .inr (.inl hcomment)
  · exact .inr (.inr ⟨commandName t, by tauto, commandName_prefix ht.1⟩)

/-- What is reported of the lines of a function. -/
def reported (ts : List Bytes) : List Intent := (ts.takeWhile (·.head? ≠ some 125)).filterMap parseLine

lemma reported_cons (t : Bytes) (ts : List Bytes) :
    reported (t :: ts) = if t.head? = some 125 then [] else (parseLine t).toList ++ reported ts := by
  unfold reported
  split_ifs with hbrace
  · rw [List.takeWhile_cons_of_neg (by simp [hbrace]), List.filterMap_nil]
  · rw [List.takeWhile_cons_of_pos (by simp [hbrace]), List.filterMap_cons]
    cases parseLine t <;> rfl

/-- No line makes more than one intent. -/
lemma length_reported_le {ts : List Bytes} (hts : ∀ t ∈ ts, Trimmed t) :
    (reported ts).length ≤ (ts.filter (Reported ·)).length := by
  induction ts with
  | nil => exact le_rfl
  | cons t ts ih =>
    obtain ⟨ht, hts⟩ := List.forall_mem_cons.1 hts
    specialize ih hts
    rw [reported_cons]
    split_ifs with hbrace
    · exact Nat.zero_le _
    by_cases hreported : Reported t
    · rw [List.filter_cons_of_pos (by simpa using hreported), List.length_append, List.length_cons]
      have hle : (parseLine t).toList.length ≤ 1 := by cases parseLine t <;> simp
      omega
    · rw [List.filter_cons_of_neg (by simpa using hreported), parseLine_of_not_reported ht hreported]
      exact ih

/-- **A function**: every command makes its intent just if every command is visible. -/
lemma forall₂_shows_iff {ts : List Bytes} (hts : ∀ t ∈ ts, Trimmed t) :
    List.Forall₂ Shows (ts.filter (Reported ·)) (reported ts) ↔ ∀ t ∈ ts, Visible t := by
  induction ts with
  | nil => simp [reported]
  | cons t ts ih =>
    obtain ⟨ht, hts⟩ := List.forall_mem_cons.1 hts
    specialize ih hts
    have hle := length_reported_le hts
    rw [reported_cons, List.forall_mem_cons]
    by_cases hreported : Reported t
    · rw [List.filter_cons_of_pos (by simpa using hreported)]
      split_ifs with hbrace
      · -- the function is taken to end here
        refine iff_of_false (fun h => by cases h) fun h => (h.1 hreported).1 (.inl hbrace)
      cases hi : parseLine t with
      | none =>
        -- one intent is missing, and the other commands cannot make up for it
        have hsilent : ∃ start ∈ silent, start <+: t := by
          rcases (parseLine_eq_none_iff ht).1 hi with hnil | hcomment | hsilent
          · exact absurd hnil hreported.1
          · exact absurd hcomment hreported.2.1
          · exact hsilent
        refine iff_of_false (fun h => ?_) fun h => (h.1 hreported).1 (.inr hsilent)
        have hlength := h.length_eq
        simp only [List.length_cons, Option.toList_none, List.nil_append] at hlength
        omega
      | some i =>
        have hhidden : ¬ Hidden t := by
          rintro (hhead | hsilent)
          · exact hbrace hhead
          · rw [(parseLine_eq_none_iff ht).2 (.inr (.inr hsilent))] at hi
            cases hi
        rw [Option.toList_some, List.singleton_append, List.forall₂_cons, ih, shows_iff ht.trim_take hi]
        simp only [Visible, hreported, hhidden, not_false_iff, true_and, forall_const]
    · have hvisible : Visible t := fun h => absurd h hreported
      have hbrace : t.head? ≠ some 125 := by
        intro hbrace
        obtain ⟨s, rfl⟩ := List.head?_eq_some_iff.1 hbrace
        refine hreported ⟨List.cons_ne_nil _ _, by simp, fun hname => ?_⟩
        have hhead := head?_commandName (isSpace_head ht.1 rfl) s
        have hsilent : ∀ name ∈ silent, name.head? ≠ some 125 := by decide
        exact hsilent _ hname hhead
      rw [List.filter_cons_of_neg (by simpa using hreported), if_neg hbrace, parseLine_of_not_reported ht hreported,
        Option.toList_none, List.nil_append, ih]
      exact (and_iff_right hvisible).symm

end Lines

end Two09.Debag.Script
