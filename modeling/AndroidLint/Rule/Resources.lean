/-
Resources — the rules for resource files.

Colors and sizes in layouts and drawables, images that older platforms
cannot draw, and web views without a height.  Each rule is a condition on
one attribute or element; the conditions are named, and each judgement
says where the condition is asked.
-/
import AndroidLint.Rule.Basic

namespace AndroidLint

namespace Rule

open Markup (Document Element Attribute)
open Resource (FolderType)

/-- The namespace of the platform's attributes. -/
def androidSpace : String := "http://schemas.android.com/apk/res/android"

/-- The namespace of an application's attributes. -/
def applicationSpace : String := "http://schemas.android.com/apk/res-auto"

/-! ## Color resources -/

/-- The explanation of `ColorResourceUsage`. -/
def colorExplanation : String :=
  lines [
    "You should use theme attributes that refer to color resources instead of directly",
    "using color resources. But, using theme attributes in non-vector drawables causes",
    "crashes on 4.x devices. In these cases, you should have one copy of your drawable",
    "that directly uses color resources in the drawable folder, and another copy in the",
    "drawable-v21 folder that uses a theme attribute."]

/-- The description of `ColorResourceUsage`. -/
def colorInfo : Info :=
  { id := "ColorResourceUsage"
    brief := "Use theme attributes that refer to colors instead of color resources directly."
    explanation := colorExplanation
    category := .correctness
    severity := .error
    onByDefault := true }

/-- The attributes that hold a color. -/
def colorAttributes : List String :=
  ["android:background", "android:color", "android:fillColor", "android:strokeColor",
    "android:textColor", "android:startColor", "android:endColor"]

/-- Whether an element or one around it is a vector. -/
def isInVector (d : Document) (index : Nat) : Bool :=
  (d.ancestorsOrSelf index).any (·.tag == "vector")

/-- A reference to a color is reported in a layout unless a selector has
its name, inside a vector always, and in a drawable without a copy for
Android 5.0 unless a selector has its name. -/
def colorReferenceFires (x : Context) (file : FilePath) (d : Document) (index : Nat)
    (color : String) : Bool :=
  let isSelector := Resource.isColorSelector file x.presence color
  (x.isIn .layout && !isSelector)
    || isInVector d index
    || (x.isIn .drawable && !Resource.hasLollipopVariant file x.presence && !isSelector)

/-- A reference to the theme is reported in a drawable that is no vector
and can be drawn before Android 5.0. -/
def themeReferenceFires (x : Context) (file : FilePath) (d : Document) (index : Nat) : Bool :=
  x.isIn .drawable && !isInVector d index && !Resource.isLollipopOnly file
    && x.settings.minSdk < Resource.lollipop

/-- Whether an attribute in a resource file is reported by its value. -/
def colorFires (x : Context) (file : FilePath) (d : Document) (index : Nat)
    (a : Attribute) : Bool :=
  (x.isIn .layout || x.isIn .drawable) && colorAttributes.contains a.name
    && (match Text.afterStart? a.value "@color/" with
        | some color => colorReferenceFires x file d index color
        | none => Text.startsWith a.value "?" && themeReferenceFires x file d index)

/-- Colors should come from the theme. -/
def colorResourceUsage : Rule :=
  { info := colorInfo
    kinds := [.attribute]
    judge := fun x n =>
      match n, x.resource? with
      | .attribute d index a, some file =>
          colorInfo.reportIf (colorFires x file d index a) a.location
            (Text.oneLine colorExplanation) none
      | _, _ => pass }

/-! ## Hardcoded values -/

/-- The explanation of `HardcodedValueInXML`. -/
def hardcodedExplanation : String :=
  lines [
    "It's generally good practice not to hardcode colors and instead use theme attributes.",
    "This allows for easy refactoring and makes sure there aren't too many shades of the same color.",
    "Dimensions should use theme attributes or (if they're specific to a feature) local resource references."]

/-- The description of `HardcodedValueInXML`. -/
def hardcodedInfo : Info :=
  { id := "HardcodedValueInXML"
    brief := "Don't use hardcoded values"
    explanation := hardcodedExplanation
    category := .correctness
    severity := .error
    onByDefault := true }

/-- Whether a value is one line that ends in a unit of length. -/
def isDimension (value : String) : Bool :=
  !value.toList.contains '\n' && ["dp", "sp", "px", "dip"].any (Text.endsWith value ·)

/-- Whether a document draws a vector, whose sizes are coordinates. -/
def isVectorDocument (d : Document) : Bool :=
  match d.rootTag? with
  | some tag => tag == "vector" || tag == "animated-vector"
  | none => false

/-- Whether a value is a literal color, or a literal size where sizes are
checked. -/
def isHardcoded (d : Document) (value : String) : Bool :=
  Text.startsWith value "#" || (!isVectorDocument d && value != "0dp" && isDimension value)

/-- Values should not be written out. -/
def hardcodedValue : Rule :=
  { info := hardcodedInfo
    kinds := [.attribute]
    judge := fun x n =>
      match n with
      | .attribute d _ a =>
          hardcodedInfo.reportIf
            ((x.isIn .anim || x.isIn .drawable || x.isIn .layout) && isHardcoded d a.value)
            a.location (Text.oneLine hardcodedExplanation) none
      | _ => pass }

/-! ## Image sources -/

/-- What `SrcCompatUsage` says. -/
def sourceMessage : String := "Use app:srcCompat for vector drawable compatibility."

/-- The description of `SrcCompatUsage`. -/
def sourceInfo : Info :=
  { id := "SrcCompatUsage"
    brief := sourceMessage
    explanation := sourceMessage
    category := .correctness
    severity := .error
    onByDefault := true }

/-- Moves an image's source to the compatible attribute. -/
def sourceFix (value : String) : Fix :=
  .composite [
    .setAttribute applicationSpace "srcCompat" value,
    .unsetAttribute androidSpace "src"]

/-- Images should be named so that vectors work before Android 5.0. -/
def srcCompatUsage : Rule :=
  { info := sourceInfo
    kinds := [.attribute]
    judge := fun x n =>
      match n with
      | .attribute _ _ a =>
          sourceInfo.reportIf
            (x.isIn .layout && a.name == "android:src" && x.settings.minSdk < Resource.lollipop)
            a.location sourceMessage (some (sourceFix a.value))
      | _ => pass }

/-! ## Web views -/

/-- The explanation of `WebViewInsideScrollview`. -/
def webViewExplanation : String :=
  lines [
    "Add android:fillViewport=true in the ScrollView to avoid unexpected behaviors in WebView.",
    "When WebView is wrapped inside ScrollView, the WebView sometimes doesn't provide the necessary",
    "viewport height to the webpage and a results in a zero height page."]

/-- The description of `WebViewInsideScrollview`. -/
def webViewInfo : Info :=
  { id := "WebViewInsideScrollview"
    brief :=
      "Add android:fillViewport=true in the ScrollView to avoid unexpected behaviors in WebView"
    explanation := webViewExplanation
    category := .correctness
    severity := .error
    onByDefault := true }

/-- The elements that scroll what is in them. -/
def scrollContainers : List String :=
  ["ScrollView", "android.support.v4.widget.NestedScrollView",
    "androidx.core.widget.NestedScrollView"]

/-- The nearest scroll container around an element, itself included. -/
def scrollContainer? (d : Document) (index : Nat) : Option Element :=
  (d.ancestorsOrSelf index).find? fun e => scrollContainers.contains e.tag

/-- Whether a container makes what is in it fill the view. -/
def fillsViewport (container : Element) : Bool :=
  match container.attribute? "android:fillViewport" with
  | some a => a.value == "true"
  | none => false

/-- A web view needs a container that it fills; the container is reported. -/
def webViewInsideScrollView : Rule :=
  { info := webViewInfo
    kinds := [.element]
    judge := fun x n =>
      match n with
      | .element d index e =>
          match scrollContainer? d index with
          | some container =>
              webViewInfo.reportIf
                (x.isIn .layout && e.tag == "WebView" && !fillsViewport container)
                container.location (Text.oneLine webViewExplanation)
                (some (.setAttribute androidSpace "fillViewport" "true"))
          | none => pass
      | _ => pass }

end Rule

end AndroidLint
