import SingleTable.Value.Kind

/-!
# Models

A model describes one kind of entity in a shared table: the templates of its primary key and of its
secondary indexes, and its attributes. The order of declaration counts, and the lists may hold one
name more than once; a look-up finds the first.
-/

set_option autoImplicit false

namespace SingleTable

/-- A physical key attribute and the text of the template that its value comes from. -/
structure KeyDefinition where
  /-- The name of the attribute in the table. -/
  name : String
  /-- The text of the template. -/
  template : String
  deriving DecidableEq

/-- A secondary index. -/
structure IndexDefinition where
  /-- The name of the index. -/
  name : String
  /-- The key attributes of the index. -/
  key : List KeyDefinition
  deriving DecidableEq

/-- An attribute of the entity. -/
structure AttributeDefinition where
  /-- The name of the attribute. -/
  name : String
  /-- The kind of its values, if it is declared. -/
  kind : Option ValueType
  /-- Whether every item has the attribute. -/
  required : Bool
  deriving DecidableEq

/-- An entity in a shared table. -/
structure Model where
  /-- The name of the entity. -/
  name : String
  /-- The name of the table. -/
  table : String
  /-- The primary key. -/
  key : List KeyDefinition := []
  /-- The secondary indexes. -/
  indexes : List IndexDefinition := []
  /-- The attributes. -/
  attributes : List AttributeDefinition := []
  deriving DecidableEq

namespace Model

/-- The index of a name. -/
def index? (model : Model) (name : String) : Option IndexDefinition :=
  model.indexes.find? (·.name = name)

/-- The attribute of a name. -/
def attribute? (model : Model) (name : String) : Option AttributeDefinition :=
  model.attributes.find? (·.name = name)

/-- The key attributes of all indexes in order. -/
def indexKeys (model : Model) : List KeyDefinition := model.indexes.flatMap (·.key)

end Model

end SingleTable
