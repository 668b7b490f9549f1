import ClassIndex.Model.Basic

/-!
# Outlines

An outline shows the registered classes as text: a line for each class, followed by its mixins, the
methods of the class itself and those of its instances.
-/

namespace ClassIndex

namespace ClassKind

/-- The word that opens a definition. -/
def keyword : ClassKind → String
  | modular => "module"
  | ordinary | singleton => "class"

end ClassKind

namespace Model

/-- The line that opens the outline of a class. -/
def headline (model : Model) (id : ClassId) : String :=
  let record := model.classAt id
  let opening := record.kind.keyword ++ " " ++ record.fullname
  match record.superclass with
  | some superclass => opening ++ " < " ++ model.fullname superclass
  | none => opening

/-- The outline of a class. -/
def outlineOf (model : Model) (id : ClassId) : List String :=
  let record := model.classAt id
  let signature (method : MethodId) := (model.methodAt method).signature
  model.headline id ::
    (record.mixins.map fun mixin =>
      "  " ++ mixin.kind.name ++ " " ++ model.fullname mixin.source) ++
    (record.classMethods.methods.map fun method => "  ." ++ signature method) ++
    (record.instanceMethods.methods.map fun method => "  #" ++ signature method)

/-- The outline of all registered classes; each line is ended. -/
def outline (model : Model) : String :=
  String.join ((model.catalogue.order.flatMap model.outlineOf).map fun line => line ++ "\n")

end Model

end ClassIndex
