import DwnServer.Js.Text

/-!
# The prototype every object literal shares

The names `Object.prototype` defines. All of them but `__proto__` hold functions;
`__proto__` is an accessor whose getter answers the prototype of the receiver.
-/
namespace DwnServer

def protoName : JsString := js "__proto__"

/-- The names of the functions on `Object.prototype`. -/
def objectPrototypeFunctions : List JsString :=
  [js "constructor", js "__defineGetter__", js "__defineSetter__", js "hasOwnProperty",
    js "__lookupGetter__", js "__lookupSetter__", js "isPrototypeOf", js "propertyIsEnumerable",
    js "toString", js "valueOf", js "toLocaleString"]

end DwnServer
