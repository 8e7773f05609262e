import AsyncCpp.Greeter.Lifecycle
import AsyncCpp.Greeter.Cancellation
import AsyncCpp.Greeter.OverTheWire
import AsyncCpp.Redis.Runs
import AsyncCpp.Echo.Delivery
import AsyncCpp.Echo.Deadlock
import AsyncCpp.Asio.TcpClient
import AsyncCpp.Asio.Handover
import AsyncCpp.Http.Selectors
import AsyncCpp.Asio.ServerProgress
import AsyncCpp.Lambda.ListTables
import AsyncCpp.Mysql.AsWritten
import AsyncCpp.Config.Legible
