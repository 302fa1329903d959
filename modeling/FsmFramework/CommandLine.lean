import FsmFramework.Lib.CString

/-!
# The command line

`ParseArgs` of `main.cpp`. Each argument sets one option, and the number behind `--port=` and
`--sync-timeout-ms=` goes through `strtoul`. The grammar of the arguments is stated once for any
notion of a number: with strings of digits it is what the usage text shows, with what `strtoul`
reads it is what the code accepts. The two differ where a number has white space or a sign in
front.
-/

namespace FsmFramework

open CString

inductive LogLevel
  | debug | info | warn | error | off
  deriving DecidableEq, Repr

structure HttpServerConfig where
  host : CString := lit "0.0.0.0"
  port : UInt16 := 8080
  syncTimeoutMs : UInt32 := 5000
  deriving DecidableEq, Repr

structure ServiceOptions where
  http : HttpServerConfig := {}
  logLevel : LogLevel := .info
  deriving DecidableEq, Repr

/-! ## The parser -/

/-- `end` is where `strtoul` stopped, which must be the terminating zero. -/
def parseUnsignedInt (text : CString) : Option UInt32 :=
  if text = [] then none
  else
    let (parsed, rest) := text.cStr.strtoul
    if rest ≠ [] ∨ parsed > 0xFFFFFFFF then none else some parsed.toUInt32

def parseLogLevel (text : CString) : Option LogLevel :=
  if text = lit "debug" then some .debug
  else if text = lit "info" then some .info
  else if text = lit "warn" then some .warn
  else if text = lit "error" then some .error
  else if text = lit "off" then some .off
  else none

/-- The body of the loop of `ParseArgs`: whether it goes on, and the options afterwards. -/
def parseArg (arg : CString) (options : ServiceOptions) : Bool × ServiceOptions :=
  if arg = lit "--help" ∨ arg = lit "-h" then (false, options)
  else if arg.startsWith (lit "--host=") then
    (true, { options with http := { options.http with host := arg.drop 7 } })
  else if arg.startsWith (lit "--port=") then
    match parseUnsignedInt (arg.drop 7) with
    | some port =>
        if port = 0 ∨ port > 65535 then (false, options)
        else (true, { options with http := { options.http with port := port.toUInt16 } })
    | none => (false, options)
  else if arg.startsWith (lit "--log-level=") then
    match parseLogLevel (arg.drop 12) with
    | some logLevel => (true, { options with logLevel := logLevel })
    | none => (false, options)
  else if arg.startsWith (lit "--sync-timeout-ms=") then
    match parseUnsignedInt (arg.drop 18) with
    | some timeoutMs =>
        if timeoutMs = 0 then (false, options)
        else (true, { options with http := { options.http with syncTimeoutMs := timeoutMs } })
    | none => (false, options)
  else (false, options)

def parseRest : List CString → ServiceOptions → Bool × ServiceOptions
  | [], options => (true, options)
  | arg :: args, options =>
      let (ok, options) := parseArg arg options
      if ok then parseRest args options else (false, options)

/-- An argument vector's strings end at their first zero. -/
abbrev Argument := { s : CString // 0 ∉ s }

/-- `ParseArgs`. The first argument is the program. -/
def parseArgs (argv : List Argument) (options : ServiceOptions) : Bool × ServiceOptions :=
  parseRest (argv.tail.map Subtype.val) options

/-! ## The grammar -/

/-- What one argument sets. -/
inductive Setting
  | host (host : CString)
  | port (port : UInt16)
  | logLevel (logLevel : LogLevel)
  | syncTimeoutMs (timeoutMs : UInt32)
  deriving DecidableEq, Repr

namespace Setting

def apply (options : ServiceOptions) : Setting → ServiceOptions
  | .host h => { options with http := { options.http with host := h } }
  | .port p => { options with http := { options.http with port := p } }
  | .logLevel l => { options with logLevel := l }
  | .syncTimeoutMs t => { options with http := { options.http with syncTimeoutMs := t } }

def host? : Setting → Option CString
  | .host h => some h
  | _ => none

def port? : Setting → Option UInt16
  | .port p => some p
  | _ => none

def logLevel? : Setting → Option LogLevel
  | .logLevel l => some l
  | _ => none

def syncTimeoutMs? : Setting → Option UInt32
  | .syncTimeoutMs t => some t
  | _ => none

end Setting

def LogLevel.name : LogLevel → CString
  | .debug => lit "debug"
  | .info => lit "info"
  | .warn => lit "warn"
  | .error => lit "error"
  | .off => lit "off"

/-- The arguments, for a notion of what number a text denotes. -/
inductive Denotes (num : CString → ℕ → Prop) : CString → Setting → Prop
  | host (host : CString) : Denotes num (lit "--host=" ++ host) (.host host)
  | port {text : CString} {n : ℕ} (htext : num text n) (hpos : 0 < n) (hmax : n ≤ 65535) :
      Denotes num (lit "--port=" ++ text) (.port (UInt16.ofNat n))
  | logLevel (logLevel : LogLevel) :
      Denotes num (lit "--log-level=" ++ logLevel.name) (.logLevel logLevel)
  | syncTimeoutMs {text : CString} {n : ℕ} (htext : num text n) (hpos : 0 < n)
      (hmax : n ≤ 2 ^ 32 - 1) :
      Denotes num (lit "--sync-timeout-ms=" ++ text) (.syncTimeoutMs (UInt32.ofNat n))

/-- A non-empty string of decimal digits, and what it denotes. -/
def Digits (text : CString) (n : ℕ) : Prop :=
  text ≠ [] ∧ (∀ c ∈ text, isDigit c = true) ∧ decimal text = n

/-- A text that `strtoul` reads to its end, and what it gives. -/
def Strtoul (text : CString) (n : ℕ) : Prop := ∃ u, Number text u ∧ u.toNat = n

/-- The last setting of each kind counts, and an option without one keeps its value. -/
structure LastWins (settings : List Setting) (options options' : ServiceOptions) : Prop where
  host : options'.http.host = (settings.filterMap Setting.host?).getLast?.getD options.http.host
  port : options'.http.port = (settings.filterMap Setting.port?).getLast?.getD options.http.port
  logLevel : options'.logLevel =
    (settings.filterMap Setting.logLevel?).getLast?.getD options.logLevel
  syncTimeoutMs : options'.http.syncTimeoutMs =
    (settings.filterMap Setting.syncTimeoutMs?).getLast?.getD options.http.syncTimeoutMs

/-! ## One argument -/

/-- `ParseUnsignedInt` takes what `strtoul` reads, up to 32 bits. -/
theorem parseUnsignedInt_eq_some_iff {text : CString} (h0 : 0 ∉ text) {v : UInt32} :
    parseUnsignedInt text = some v ↔ Strtoul text v.toNat := by
  rw [parseUnsignedInt, cStr_eq_self h0]
  by_cases hne : text = []
  · subst hne
    simp only [if_true, reduceCtorEq, false_iff]
    rintro ⟨u, hu, -⟩
    exact hu.ne_nil rfl
  rw [if_neg hne]
  constructor
  · intro h
    cases hread : text.strtoul with
    | mk parsed rest =>
        simp only [hread] at h
        split at h
        · cases h
        · rename_i hok
          obtain ⟨hrest, hle⟩ := not_or.mp hok
          obtain rfl := not_not.mp hrest
          refine ⟨parsed, (strtoul_eq_nil_iff hne).mp hread, ?_⟩
          have hnat : parsed.toNat ≤ 0xFFFFFFFF := by
            simpa using UInt64.le_iff_toNat_le.mp (UInt64.not_lt.mp hle)
          rw [← Option.some.inj h, UInt64.toNat_toUInt32, Nat.mod_eq_of_lt (by omega)]
  · rintro ⟨u, hu, hv⟩
    rw [(strtoul_eq_nil_iff hne).mpr hu]
    have hlt := v.toNat_lt
    have hle : ¬ u > 0xFFFFFFFF := by
      rw [gt_iff_lt, UInt64.lt_iff_toNat_lt, hv]
      simp
      omega
    simp only [ne_eq, not_true_eq_false, false_or, hle, if_false, Option.some.injEq]
    apply UInt32.toNat_inj.mp
    rw [UInt64.toNat_toUInt32, hv, Nat.mod_eq_of_lt hlt]

theorem parseUnsignedInt_of_strtoul {text : CString} {n : ℕ} (h0 : 0 ∉ text) (hn : n < 2 ^ 32)
    (h : Strtoul text n) : ∃ v : UInt32, v.toNat = n ∧ parseUnsignedInt text = some v := by
  have hv : (UInt32.ofNat n).toNat = n := UInt32.toNat_ofNat_of_lt' hn
  exact ⟨_, hv, (parseUnsignedInt_eq_some_iff h0).mpr (hv.symm ▸ h)⟩

theorem toNat_pos_iff (v : UInt32) : 0 < v.toNat ↔ v ≠ 0 := by
  rw [Nat.pos_iff_ne_zero, ne_eq, ne_eq, ← UInt32.toNat_inj]
  rfl

theorem toNat_le_port_iff (v : UInt32) : v.toNat ≤ 65535 ↔ ¬ v > 65535 := by
  rw [gt_iff_lt, UInt32.not_lt, UInt32.le_iff_toNat_le]
  rfl

theorem parseLogLevel_eq_some_iff {text : CString} {l : LogLevel} :
    parseLogLevel text = some l ↔ text = l.name := by
  constructor
  · intro h
    rw [parseLogLevel] at h
    split_ifs at h with h₁ h₂ h₃ h₄ h₅ <;> cases h <;> assumption
  · rintro rfl
    cases l <;> rfl

/-- Which test of the loop an argument with one of the prefixes meets. -/
theorem parseArg_host (h : CString) (options : ServiceOptions) :
    parseArg (lit "--host=" ++ h) options = (true, (Setting.host h).apply options) := rfl

theorem parseArg_port (text : CString) (options : ServiceOptions) :
    parseArg (lit "--port=" ++ text) options = match parseUnsignedInt text with
      | some port =>
          if port = 0 ∨ port > 65535 then (false, options)
          else (true, (Setting.port port.toUInt16).apply options)
      | none => (false, options) := rfl

theorem parseArg_logLevel (text : CString) (options : ServiceOptions) :
    parseArg (lit "--log-level=" ++ text) options = match parseLogLevel text with
      | some logLevel => (true, (Setting.logLevel logLevel).apply options)
      | none => (false, options) := rfl

theorem parseArg_syncTimeoutMs (text : CString) (options : ServiceOptions) :
    parseArg (lit "--sync-timeout-ms=" ++ text) options = match parseUnsignedInt text with
      | some timeoutMs =>
          if timeoutMs = 0 then (false, options)
          else (true, (Setting.syncTimeoutMs timeoutMs).apply options)
      | none => (false, options) := rfl

/-- An argument in the grammar sets what it denotes. -/
theorem parseArg_of_denotes {arg : CString} {setting : Setting} (h0 : 0 ∉ arg)
    (h : Denotes Strtoul arg setting) (options : ServiceOptions) :
    parseArg arg options = (true, setting.apply options) := by
  cases h with
  | host h => exact parseArg_host h options
  | @port text n htext hpos hmax =>
      obtain ⟨v, rfl, hv⟩ := parseUnsignedInt_of_strtoul
        (fun hmem => h0 (List.mem_append_right _ hmem)) (by omega : n < 2 ^ 32) htext
      have hrange : ¬ (v = 0 ∨ v > 65535) :=
        not_or.mpr ⟨(toNat_pos_iff v).mp hpos, (toNat_le_port_iff v).mp hmax⟩
      rw [parseArg_port, hv]
      simp only [hrange, if_false]
      rfl
  | logLevel l =>
      rw [parseArg_logLevel, parseLogLevel_eq_some_iff.mpr rfl]
  | @syncTimeoutMs text n htext hpos hmax =>
      obtain ⟨v, rfl, hv⟩ := parseUnsignedInt_of_strtoul
        (fun hmem => h0 (List.mem_append_right _ hmem)) (by omega : n < 2 ^ 32) htext
      rw [parseArg_syncTimeoutMs, hv]
      simp [(toNat_pos_iff v).mp hpos]

/-- What the loop does with one argument: it sets what the argument denotes, or refuses it. -/
theorem parseArg_cases {arg : CString} (h0 : 0 ∉ arg) (options : ServiceOptions) :
    (∃ setting, Denotes Strtoul arg setting ∧
      parseArg arg options = (true, setting.apply options)) ∨
    parseArg arg options = (false, options) := by
  by_cases hhost : arg.startsWith (lit "--host=")
  · obtain ⟨h, rfl⟩ := startsWith_iff.mp hhost
    exact .inl ⟨_, .host h, parseArg_host h options⟩
  by_cases hport : arg.startsWith (lit "--port=")
  · obtain ⟨text, rfl⟩ := startsWith_iff.mp hport
    have htext0 : 0 ∉ text := fun hmem => h0 (List.mem_append_right _ hmem)
    rw [parseArg_port]
    cases hv : parseUnsignedInt text with
    | none => exact .inr rfl
    | some port =>
        have htext := (parseUnsignedInt_eq_some_iff htext0).mp hv
        dsimp only
        split
        · exact .inr rfl
        · rename_i hrange
          obtain ⟨hne, hle⟩ := not_or.mp hrange
          exact .inl ⟨_, .port htext ((toNat_pos_iff port).mpr hne)
            ((toNat_le_port_iff port).mpr hle), rfl⟩
  by_cases hlevel : arg.startsWith (lit "--log-level=")
  · obtain ⟨text, rfl⟩ := startsWith_iff.mp hlevel
    rw [parseArg_logLevel]
    cases hv : parseLogLevel text with
    | none => exact .inr rfl
    | some l =>
        obtain rfl := parseLogLevel_eq_some_iff.mp hv
        exact .inl ⟨_, .logLevel l, rfl⟩
  by_cases htimeout : arg.startsWith (lit "--sync-timeout-ms=")
  · obtain ⟨text, rfl⟩ := startsWith_iff.mp htimeout
    have htext0 : 0 ∉ text := fun hmem => h0 (List.mem_append_right _ hmem)
    rw [parseArg_syncTimeoutMs]
    cases hv : parseUnsignedInt text with
    | none => exact .inr rfl
    | some timeoutMs =>
        have htext := (parseUnsignedInt_eq_some_iff htext0).mp hv
        dsimp only
        split
        · exact .inr rfl
        · rename_i hne
          have hmax : timeoutMs.toNat ≤ 2 ^ 32 - 1 := Nat.le_sub_one_of_lt timeoutMs.toNat_lt
          refine .inl ⟨_, .syncTimeoutMs htext ((toNat_pos_iff timeoutMs).mpr hne) hmax, ?_⟩
          rw [UInt32.ofNat_toNat]
  exact .inr (by simp [parseArg, hhost, hport, hlevel, htimeout])

/-! ## The loop -/

theorem exists_forall₂ {α β : Type*} {R : α → β → Prop} {as : List α}
    (h : ∀ a ∈ as, ∃ b, R a b) : ∃ bs, List.Forall₂ R as bs := by
  induction as with
  | nil => exact ⟨[], .nil⟩
  | cons a as ih =>
      obtain ⟨b, hb⟩ := h a List.mem_cons_self
      obtain ⟨bs, hbs⟩ := ih fun x hx => h x (List.mem_cons_of_mem a hx)
      exact ⟨b :: bs, .cons hb hbs⟩

/-- Arguments in the grammar are set one after the other. -/
theorem parseRest_of_denotes {args : List CString} {settings : List Setting}
    (h0 : ∀ arg ∈ args, 0 ∉ arg) (h : List.Forall₂ (Denotes Strtoul) args settings)
    (options : ServiceOptions) :
    parseRest args options = (true, settings.foldl Setting.apply options) := by
  induction h generalizing options with
  | nil => rfl
  | cons hab _ ih =>
      rw [parseRest, parseArg_of_denotes (h0 _ List.mem_cons_self) hab]
      exact ih (fun arg harg => h0 arg (List.mem_cons_of_mem _ harg)) _

/-- One argument outside the grammar, anywhere, and the answer is no. -/
theorem parseRest_true_iff {args : List CString} (h0 : ∀ arg ∈ args, 0 ∉ arg)
    (options : ServiceOptions) :
    (parseRest args options).1 = true ↔ ∀ arg ∈ args, ∃ setting, Denotes Strtoul arg setting := by
  constructor
  · intro h
    induction args generalizing options with
    | nil => simp
    | cons arg args ih =>
        have htail : ∀ a ∈ args, 0 ∉ a := fun a ha => h0 a (List.mem_cons_of_mem arg ha)
        rw [parseRest] at h
        obtain ⟨setting, hden, heq⟩ | heq := parseArg_cases (h0 arg List.mem_cons_self) options
        · rw [heq] at h
          exact List.forall_mem_cons.mpr ⟨⟨setting, hden⟩, ih htail _ h⟩
        · rw [heq] at h
          cases h
  · intro h
    obtain ⟨settings, hsettings⟩ := exists_forall₂ h
    rw [parseRest_of_denotes h0 hsettings]

/-- Where each step overwrites a field or leaves it alone, the last write counts. -/
theorem foldl_last {σ τ β : Type*} {f : σ → τ → σ} (get : σ → β) (val : τ → Option β)
    (h : ∀ s t, get (f s t) = (val t).getD (get s)) (ts : List τ) (s : σ) :
    get (ts.foldl f s) = (ts.filterMap val).getLast?.getD (get s) := by
  induction ts generalizing s with
  | nil => rfl
  | cons t ts ih =>
      rw [List.foldl_cons, ih, h, List.filterMap_cons]
      cases val t with
      | none => rfl
      | some v => simp [List.getLast?_cons]

theorem lastWins_foldl (settings : List Setting) (options : ServiceOptions) :
    LastWins settings options (settings.foldl Setting.apply options) where
  host := foldl_last (fun o : ServiceOptions => o.http.host) Setting.host?
    (fun _ setting => by cases setting <;> rfl) settings options
  port := foldl_last (fun o : ServiceOptions => o.http.port) Setting.port?
    (fun _ setting => by cases setting <;> rfl) settings options
  logLevel := foldl_last ServiceOptions.logLevel Setting.logLevel?
    (fun _ setting => by cases setting <;> rfl) settings options
  syncTimeoutMs := foldl_last (fun o : ServiceOptions => o.http.syncTimeoutMs)
    Setting.syncTimeoutMs? (fun _ setting => by cases setting <;> rfl) settings options

/-! ## Numbers with something in front -/

/-- The text starts with white space or a sign. -/
def Prefixed (text : CString) : Prop :=
  ∃ c rest, text = c :: rest ∧ (isSpace c = true ∨ c = chr '+' ∨ c = chr '-')

/-- Without white space or a sign in front, `strtoul` reads digits and no more. -/
theorem digits_iff {text : CString} {n : ℕ} (hn : n ≤ 2 ^ 32 - 1) :
    Digits text n ↔ Strtoul text n ∧ ¬ Prefixed text := by
  constructor
  · rintro ⟨hne, hds, rfl⟩
    have hnum : Number ([] ++ ([] ++ text)) (ulong false (decimal text)) :=
      .mk (by simp) .none hne hds
    refine ⟨⟨_, hnum, ulong_toNat (by omega)⟩, ?_⟩
    rintro ⟨c, rest, rfl, hc⟩
    obtain ⟨hspace, hminus, hplus, -⟩ := of_isDigit (hds c List.mem_cons_self)
    simp [hspace, hminus, hplus] at hc
  · rintro ⟨⟨u, hu, rfl⟩, hpre⟩
    obtain ⟨hws, hsgn, hne, hds⟩ := hu
    rename_i ws sgn ds negative
    cases ws with
    | cons c ws => exact absurd ⟨c, _, rfl, .inl (hws c List.mem_cons_self)⟩ hpre
    | nil =>
        cases hsgn with
        | plus => exact absurd ⟨_, _, rfl, .inr (.inl rfl)⟩ hpre
        | minus => exact absurd ⟨_, _, rfl, .inr (.inr rfl)⟩ hpre
        | none =>
            have hvalue : (ulong false (decimal ds)).toNat = decimal ds :=
              ulong_toNat_of_lt (lt_of_le_of_lt hn (by decide))
            exact ⟨hne, hds, hvalue.symm⟩

/-! ## The two grammars -/

/-- The number of this argument has white space or a sign in front. -/
def PrefixedNumber (arg : CString) : Prop :=
  ∃ text, Prefixed text ∧ (arg = lit "--port=" ++ text ∨ arg = lit "--sync-timeout-ms=" ++ text)

/-- The grammar of the usage text leaves out the numbers with something in front, and nothing
else. -/
theorem denotes_digits_iff {arg : CString} {setting : Setting} :
    Denotes Digits arg setting ↔ Denotes Strtoul arg setting ∧ ¬ PrefixedNumber arg := by
  constructor
  · intro h
    cases h with
    | host h => exact ⟨.host h, by simp [PrefixedNumber, lit, chr]⟩
    | logLevel l => exact ⟨.logLevel l, by simp [PrefixedNumber, lit, chr]⟩
    | port htext hpos hmax =>
        obtain ⟨hstr, hpre⟩ := (digits_iff (by omega)).mp htext
        exact ⟨.port hstr hpos hmax, by simpa [PrefixedNumber, lit, chr] using hpre⟩
    | syncTimeoutMs htext hpos hmax =>
        obtain ⟨hstr, hpre⟩ := (digits_iff (by omega)).mp htext
        exact ⟨.syncTimeoutMs hstr hpos hmax, by simpa [PrefixedNumber, lit, chr] using hpre⟩
  · rintro ⟨h, hpre⟩
    cases h with
    | host h => exact .host h
    | logLevel l => exact .logLevel l
    | @port text n htext hpos hmax =>
        have hpre' : ¬ Prefixed text := fun hp => hpre ⟨text, hp, .inl rfl⟩
        exact .port ((digits_iff (by omega)).mpr ⟨htext, hpre'⟩) hpos hmax
    | @syncTimeoutMs text n htext hpos hmax =>
        have hpre' : ¬ Prefixed text := fun hp => hpre ⟨text, hp, .inr rfl⟩
        exact .syncTimeoutMs ((digits_iff (by omega)).mpr ⟨htext, hpre'⟩) hpos hmax

/-! ## The command line -/

/-- `ParseArgs` takes exactly the argument vectors in the grammar of the usage text, and then the
last setting of each option counts. -/
def FollowsUsage (argv : List Argument) (options : ServiceOptions) : Prop :=
  ((parseArgs argv options).1 = true ↔ ∀ arg ∈ argv.tail, ∃ setting, Denotes Digits arg setting) ∧
    ((parseArgs argv options).1 = true → ∃ settings,
      List.Forall₂ (Denotes Digits) (argv.tail.map Subtype.val) settings ∧
        LastWins settings options (parseArgs argv options).2)

/-- **Command lines.** `ParseArgs` follows the usage text if and only if, whenever all arguments
are in the wider grammar of `strtoul`, no number has white space or a sign in front. -/
theorem parseArgs_followsUsage_iff (argv : List Argument) (options : ServiceOptions) :
    FollowsUsage argv options ↔
      ((∀ arg ∈ argv.tail, ∃ setting, Denotes Strtoul arg setting) →
        ∀ arg ∈ argv.tail, ¬ PrefixedNumber arg) := by
  have h0 : ∀ arg ∈ argv.tail.map Subtype.val, 0 ∉ arg := by
    intro arg harg
    obtain ⟨a, -, rfl⟩ := List.mem_map.mp harg
    exact a.2
  have hparse : (parseArgs argv options).1 = true ↔
      ∀ arg ∈ argv.tail, ∃ setting, Denotes Strtoul arg setting := by
    rw [parseArgs, parseRest_true_iff h0, List.forall_mem_map]
  constructor
  · rintro ⟨hiff, -⟩ hwide arg harg
    obtain ⟨setting, hsetting⟩ := hiff.mp (hparse.mpr hwide) arg harg
    exact (denotes_digits_iff.mp hsetting).2
  · intro hcond
    have hstrict : (parseArgs argv options).1 = true →
        ∀ arg ∈ argv.tail, ∃ setting, Denotes Digits arg setting := by
      intro htrue arg harg
      obtain ⟨setting, hsetting⟩ := hparse.mp htrue arg harg
      exact ⟨setting, denotes_digits_iff.mpr ⟨hsetting, hcond (hparse.mp htrue) arg harg⟩⟩
    refine ⟨⟨hstrict, fun h => hparse.mpr fun arg harg => ?_⟩, fun htrue => ?_⟩
    · obtain ⟨setting, hsetting⟩ := h arg harg
      exact ⟨setting, (denotes_digits_iff.mp hsetting).1⟩
    · obtain ⟨settings, hsettings⟩ := exists_forall₂
        (List.forall_mem_map.mpr (hstrict htrue) : ∀ arg ∈ argv.tail.map Subtype.val, _)
      have hwide : List.Forall₂ (Denotes Strtoul) (argv.tail.map Subtype.val) settings :=
        hsettings.imp fun _ _ h => (denotes_digits_iff.mp h).1
      refine ⟨settings, hsettings, ?_⟩
      rw [parseArgs, parseRest_of_denotes h0 hwide]
      exact lastWins_foldl settings options

/-- An argument that is written as a literal. -/
def argument (s : String) (h : 0 ∉ lit s := by decide) : Argument := ⟨lit s, h⟩

/-- A port below zero, 80 - 2^64. -/
def negativePort : List Argument :=
  [argument "reg_fsm_demo", argument "--port=-18446744073709551536"]

theorem negative_port_accepted :
    (parseArgs negativePort {}).1 = true ∧ (parseArgs negativePort {}).2.http.port = 80 ∧
      ¬ FollowsUsage negativePort {} := by
  refine ⟨by decide, by decide, ?_⟩
  rintro ⟨hiff, -⟩
  have htrue : (parseArgs negativePort {}).1 = true := by decide
  obtain ⟨setting, hsetting⟩ := hiff.mp htrue (argument "--port=-18446744073709551536")
    (by simp [negativePort])
  refine (denotes_digits_iff.mp hsetting).2 ⟨lit "-18446744073709551536", ?_, .inl rfl⟩
  exact ⟨chr '-', _, rfl, .inr (.inr rfl)⟩

end FsmFramework
