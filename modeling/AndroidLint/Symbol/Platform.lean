/-
Platform — the library types that are known without their sources.

Of each type the table gives the types above it and the members that the
rules ask about, with what they return where that is a type of the table.
-/
import AndroidLint.Symbol.Type

namespace AndroidLint

namespace Symbol

namespace Platform

/-- One row of the table. -/
def entry (name : String) (kind : TypeKind) (superClass? : Option String)
    (interfaces : List String) (methods : List (String × Option String)) : TypeSymbol :=
  { qualifiedName := name
    kind
    superClass?
    interfaces
    annotations := []
    methods := methods.map fun (name, returnType?) => ⟨name, returnType?, [], false, none⟩
    fileName? := none }

def object : String := "java.lang.Object"

def javaString : Option String := some "java.lang.String"

def kotlinString : Option String := some "kotlin.String"

def observable : Option String := some "io.reactivex.Observable"

def flowable : Option String := some "io.reactivex.Flowable"

def maybe : Option String := some "io.reactivex.Maybe"

def single : Option String := some "io.reactivex.Single"

/-- The known types of the platform. -/
def types : TypeTable :=
  [
    entry object .plain none []
      [("toString", javaString), ("equals", none), ("hashCode", none), ("getClass", none)],
    entry "java.lang.CharSequence" .interface none []
      [("length", none), ("charAt", none), ("subSequence", none)],
    entry "java.lang.String" .plain (some object) ["java.lang.CharSequence"]
      [("format", javaString), ("valueOf", javaString), ("toUpperCase", javaString),
       ("toLowerCase", javaString), ("trim", javaString), ("substring", javaString),
       ("replace", javaString), ("equals", none), ("isEmpty", none)],
    entry "java.lang.System" .plain (some object) []
      [("currentTimeMillis", none), ("nanoTime", none), ("getProperty", javaString),
       ("arraycopy", none)],
    entry "java.lang.Iterable" .interface none []
      [("iterator", none), ("forEach", none), ("spliterator", none)],
    entry "java.util.Collection" .interface none ["java.lang.Iterable"]
      [("add", none), ("remove", none), ("size", none), ("isEmpty", none), ("contains", none),
       ("clear", none), ("removeIf", none), ("stream", none), ("parallelStream", none)],
    entry "java.util.List" .interface none ["java.util.Collection"]
      [("get", none), ("set", none), ("indexOf", none), ("sort", none), ("replaceAll", none)],
    entry "java.util.Set" .interface none ["java.util.Collection"]
      [],
    entry "java.util.ArrayList" .plain (some object) ["java.util.List"]
      [],
    entry "java.util.Map" .interface none []
      [("get", none), ("put", none), ("remove", none), ("containsKey", none), ("size", none),
       ("getOrDefault", none), ("forEach", none), ("replaceAll", none), ("putIfAbsent", none),
       ("computeIfAbsent", none), ("computeIfPresent", none), ("compute", none), ("merge", none)],
    entry "java.util.HashMap" .plain (some object) ["java.util.Map"]
      [],
    entry "java.util.Locale" .plain (some object) []
      [("getDefault", some "java.util.Locale"), ("forLanguageTag", some "java.util.Locale"),
       ("getLanguage", javaString)],
    entry "kotlin.Any" .plain none []
      [("toString", kotlinString), ("equals", none), ("hashCode", none)],
    entry "kotlin.String" .plain (some "kotlin.Any") ["kotlin.CharSequence"]
      [("format", kotlinString), ("toUpperCase", kotlinString), ("toLowerCase", kotlinString),
       ("uppercase", kotlinString), ("lowercase", kotlinString), ("trim", kotlinString),
       ("substring", kotlinString), ("replace", kotlinString)],
    entry "kotlin.CharSequence" .interface none []
      [("length", none), ("get", none), ("subSequence", none)],
    entry "android.util.Pair" .plain (some object) []
      [("create", some "android.util.Pair")],
    entry "androidx.core.util.Pair" .plain (some object) []
      [("create", some "androidx.core.util.Pair")],
    entry "androidx.core.content.ContextCompat" .plain (some object) []
      [("getDrawable", some "android.graphics.drawable.Drawable"), ("getColor", none),
       ("getColorStateList", none)],
    entry "androidx.core.content.res.ResourcesCompat" .plain (some object) []
      [("getDrawable", some "android.graphics.drawable.Drawable"), ("getColor", none),
       ("getColorStateList", none), ("getFont", none)],
    entry "androidx.appcompat.content.res.AppCompatResources" .plain (some object) []
      [("getDrawable", some "android.graphics.drawable.Drawable"), ("getColorStateList", none)],
    entry "io.reactivex.Observable" .plain (some object) []
      [("just", observable), ("fromIterable", observable), ("map", observable),
       ("filter", observable), ("take", observable), ("distinct", observable),
       ("distinctUntilChanged", observable), ("single", single), ("singleOrError", single),
       ("singleElement", maybe), ("first", single), ("firstOrError", single),
       ("firstElement", maybe), ("subscribe", none)],
    entry "io.reactivex.Flowable" .plain (some object) []
      [("just", flowable), ("fromIterable", flowable), ("map", flowable), ("filter", flowable),
       ("take", flowable), ("distinct", flowable), ("distinctUntilChanged", flowable),
       ("single", single), ("singleOrError", single), ("singleElement", maybe),
       ("first", single), ("firstOrError", single), ("firstElement", maybe), ("subscribe", none)],
    entry "io.reactivex.Maybe" .plain (some object) []
      [("just", maybe), ("map", maybe), ("toSingle", single), ("subscribe", none)],
    entry "io.reactivex.Single" .plain (some object) []
      [("just", single), ("map", single), ("subscribe", none)]
  ]

end Platform

end Symbol

end AndroidLint
