/-
Calls — the rules for calls and imports of certain library members.

Most of these rules ask one thing: a call by one of some names, which goes
to a member of one of some types.  `callOf` is that condition.
-/
import AndroidLint.Rule.Basic

namespace AndroidLint

namespace Rule

open Code (Call)

/-- Whether a call is by one of the names and goes to a member of one of
the types. -/
def callOf (names owners : List String) (x : Context) (c : Call) : Bool :=
  names.contains c.methodName
    && (match x.call? c with
        | some m => owners.contains m.declaringType
        | none => false)

/-- A rule that reports the calls by some names to members of some types. -/
def ruleForCalls (info : Info) (names owners : List String) (message : String)
    (fix : Option Fix) : Rule :=
  { info := info
    kinds := [.call]
    judge := fun x n =>
      match n with
      | .call c => info.reportIf (callOf names owners x c) c.location message fix
      | _ => pass }

/-- The types of strings. -/
def stringTypes : List String :=
  ["java.lang.String", "kotlin.String", "kotlin.text.StringsKt__StringsJVMKt"]

/-- Whether an expression in the scope of a call is a string. -/
def isString (x : Context) (c : Call) (e : Code.Expr) : Bool :=
  match x.source?.bind fun f => x.resolver.typeOf? f c.scope e with
  | some type => stringTypes.contains type
  | none => false

/-! ## The platform's pair -/

/-- The explanation of `FrameworkPair`. -/
def pairExplanation : String :=
  lines [
    "The framework Pair class implementation has bugs on older versions of Android.",
    "You should use the support version instead (androidx.core.util.Pair)."]

/-- The description of `FrameworkPair`. -/
def pairInfo : Info :=
  { id := "FrameworkPair"
    brief := "Don't use android.util.Pair. Instead prefer AndroidX Pair"
    explanation := pairExplanation
    category := .correctness
    severity := .warning
    onByDefault := false }

/-- The platform's pair should not be imported. -/
def frameworkPair : Rule :=
  { info := pairInfo
    kinds := [.imported]
    judge := fun _ n =>
      match n with
      | .imported i =>
          pairInfo.reportIf (i.path == "android.util.Pair" && !i.isWildcard) i.location
            (Text.oneLine pairExplanation) none
      | _ => pass }

/-! ## Drawables and colors -/

/-- What `GetDrawable` says. -/
def drawableMessage : String :=
  "Don't use ContextCompat#getDrawable(Context,int), instead use "
    ++ "AppCompatResources#getDrawable(Context, int) since it understands how to process "
    ++ "vector drawables."

/-- The description of `GetDrawable`. -/
def drawableInfo : Info :=
  { id := "GetDrawable"
    brief := "Use AppCompatResources#getDrawable(Context, int)"
    explanation := drawableMessage
    category := .correctness
    severity := .error
    onByDefault := true }

/-- Drawables should be loaded in a way that knows vectors. -/
def getDrawable : Rule :=
  ruleForCalls drawableInfo ["getDrawable"]
    ["androidx.core.content.ContextCompat", "androidx.core.content.res.ResourcesCompat"]
    drawableMessage none

/-- What `ResCompatGetColorUsage` says. -/
def getColorMessage : String :=
  "Don't use ResourcesCompat#getColor(Resources,int,Theme), instead use "
    ++ "ContextCompat.getColor(Context,int)"

/-- The description of `ResCompatGetColorUsage`. -/
def getColorInfo : Info :=
  { id := "ResCompatGetColorUsage"
    brief := "Use ContextCompat.getColor(Context, int)"
    explanation := getColorMessage
    category := .correctness
    severity := .error
    onByDefault := true }

/-- Colors should be loaded in a way that knows the theme. -/
def resCompatGetColor : Rule :=
  ruleForCalls getColorInfo ["getColor"] ["androidx.core.content.res.ResourcesCompat"]
    getColorMessage none

/-! ## Locales -/

/-- The explanation of `StringFormatNoLocale`. -/
def formatExplanation : String :=
  lines [
    "String.format, when used without a locale can cause crashes when the input text doesn't match the user's locale.",
    "Please pass a locale to prevent this ambiguity."]

/-- The description of `StringFormatNoLocale`. -/
def formatInfo : Info :=
  { id := "StringFormatNoLocale"
    brief := "Don't use String.format without a locale"
    explanation := formatExplanation
    category := .correctness
    severity := .error
    onByDefault := true }

/-- Whether a call formats a string and its first argument is a string,
so that it is not a locale. -/
def formatsWithoutLocale (x : Context) (c : Call) : Bool :=
  callOf ["format"] stringTypes x c
    && (match c.arguments with
        | first :: _ => isString x c first
        | [] => false)

/-- Strings should be formatted for a locale. -/
def stringFormatNoLocale : Rule :=
  { info := formatInfo
    kinds := [.call]
    judge := fun x n =>
      match n with
      | .call c =>
          formatInfo.reportIf (formatsWithoutLocale x c) c.location
            (Text.oneLine formatExplanation) none
      | _ => pass }

/-- The explanation of `StringToCaseNoLocale`. -/
def caseExplanation : String :=
  lines [
    "Calling String#toLowerCase() or #toUpperCase() without specifying an",
    "explicit locale is a common source of bugs. The reason for that is that",
    "those methods will use the current locale on the user's device, and even",
    "though the code appears to work correctly when you are developing the app,",
    "it will fail in some locales. For example, in the Turkish locale, the",
    "uppercase replacement for i is not I.",
    "If you want the methods to just perform ASCII replacement, for example to",
    "convert an enum name, call String#toUpperCase(Locale.US) instead. If you",
    "really want to use the current locale, call",
    "String#toUpperCase(Locale.getDefault()) instead."]

/-- The description of `StringToCaseNoLocale`. -/
def caseInfo : Info :=
  { id := "StringToCaseNoLocale"
    brief := "Don't use toLowerCase/toUpperCase without a locale"
    explanation := caseExplanation
    category := .correctness
    severity := .error
    onByDefault := true }

/-- The names of the methods that change the case of a string. -/
def caseNames : List String :=
  ["toUpperCase", "toLowerCase"]

/-- Whether a call without arguments changes the case of a string: it goes
to a member of a string type or what it is called on is a string. -/
def changesCase (x : Context) (c : Call) : Bool :=
  caseNames.contains c.methodName && c.arguments.isEmpty && x.source?.isSome
    && (callOf caseNames stringTypes x c
      || (match c.receiver? with
          | some receiver => isString x c receiver
          | none => false))

/-- The case of strings should be changed for a locale. -/
def stringToCaseNoLocale : Rule :=
  { info := caseInfo
    kinds := [.call]
    judge := fun x n =>
      match n with
      | .call c => caseInfo.reportIf (changesCase x c) c.location caseInfo.brief none
      | _ => pass }

/-! ## The clock -/

/-- The explanation of `SystemCurrentTimeMillis`. -/
def clockExplanation : String :=
  lines [
    "Don't use System.currentTimeMillis.",
    "Please prefer an abstraction like Clock, as this is easily mocked, injected, and tested."]

/-- The description of `SystemCurrentTimeMillis`. -/
def clockInfo : Info :=
  { id := "SystemCurrentTimeMillis"
    brief := "Don't use System.currentTimeMillis"
    explanation := clockExplanation
    category := .correctness
    severity := .error
    onByDefault := true }

/-- The clock should not be read directly. -/
def systemCurrentTimeMillis : Rule :=
  ruleForCalls clockInfo ["currentTimeMillis"] ["java.lang.System"]
    (Text.oneLine clockExplanation) none

/-! ## Streams -/

/-- The types of streams of values. -/
def streamTypes : List String :=
  ["io.reactivex.Observable", "io.reactivex.Flowable"]

/-- What `RxJavaDistinct` says. -/
def distinctMessage : String :=
  "distinct() works by holding all previous values in memory and only can be used with a "
    ++ "bounded observable. In most cases, distinctUntilChanged() works since it only compares "
    ++ "against the last emitted item instead of all items."

/-- The description of `RxJavaDistinct`. -/
def distinctInfo : Info :=
  { id := "RxJavaDistinct"
    brief :=
      "Distinct leads to wasting memory, use distinctUntilChanged instead since that covers "
        ++ "most common use-cases"
    explanation := distinctMessage
    category := .correctness
    severity := .warning
    onByDefault := true }

/-- Streams should not remember all their values. -/
def rxJavaDistinct : Rule :=
  ruleForCalls distinctInfo ["distinct"] streamTypes distinctMessage
    (some (.replacePattern "distinct" "distinctUntilChanged"))

/-- The explanation of `RxJavaToSingle`. -/
def singleExplanation : String :=
  "single(), singleOrError() and singleElement() will emit an error if there is more than 1 "
    ++ "element in the stream. On top of that, single() will not actually emit the element until "
    ++ "the stream is completed. This issue is usually mitigated by adding take(1), however this "
    ++ "is error prone as developers might forget to do that and the code will still compile and "
    ++ "possibly even run without issues for some time. This issue could be easily avoided by "
    ++ "using first(), firstOrError() or firstElement() instead.\n\n"
    ++ "Maybe.toSingle() is disregarding the core idea of Maybe - that the stream can complete "
    ++ "without emitting any values. Calling toSingle() on such stream would emit an error."

/-- The description of `RxJavaToSingle`. -/
def singleInfo : Info :=
  { id := "RxJavaToSingle"
    brief :=
      "Unsafe conversion to Single. Use first(), firstElement(), firstOrError() or "
        ++ "toSingle(defaultValue) instead."
    explanation := singleExplanation
    category := .correctness
    severity := .warning
    onByDefault := true }

/-- Streams should be turned into single values safely. -/
def rxJavaToSingle : Rule :=
  ruleForCalls singleInfo ["single", "singleOrError", "singleElement", "toSingle"]
    ("io.reactivex.Maybe" :: streamTypes) singleInfo.brief none

end Rule

end AndroidLint
